import CryptoHft.Core.MarketDataEngine
import CryptoHft.Lib.Machine

/-!
# Calls of the handlers

A run of the engine is a list of calls of its two handlers, each made by some thread.

* A call of an unknown symbol changes nothing, a call of a known one queues one update of its symbol
  (`handle_unknown`, `handle_known`); no call makes a symbol known or unknown (`handleAll_known`).
* What a symbol's book and queued updates are after a run depends on the calls of that symbol only
  (`handleAll_filter`).
-/

namespace CryptoHft

open Machine

/-- One call of a handler: who makes it, what the memory of the handler's local update holds, and the argument. -/
structure Call (T D : Type) where
  thread : T
  uninit : MarketUpdate D
  event : MarketEvent D

namespace MarketEvent

variable {D : Type} [LinearOrder D] [Zero D]

@[simp] theorem update_symbol (ev : MarketEvent D) (uninit : MarketUpdate D) (b : OrderBook D) :
    (ev.update uninit b).symbol = ev.symbol := by
  cases ev with
  | snapshot s =>
    simp only [update, symbol, MarketDataEngine.snapshotUpdate]
    cases OrderedMap.first (MarketDataEngine.toMap s.bids) <;>
      cases OrderedMap.first (MarketDataEngine.toMap s.asks) <;> rfl
  | delta d => rfl

end MarketEvent

namespace MarketDataEngine

variable {T D : Type} [LinearOrder D] [Zero D]

def handle (e : MarketDataEngine T D) (c : Call T D) : MarketDataEngine T D := callback c.uninit c.thread e c.event

def handleAll (e : MarketDataEngine T D) (calls : List (Call T D)) : MarketDataEngine T D := calls.foldl handle e

/-- The updates queued for the symbol, oldest first, with the threads that queued them. -/
def queuedFor (x : String) (e : MarketDataEngine T D) : List (T × MarketUpdate D) :=
  e.updateQueue.filter fun u => u.2.symbol = x

/-! ## One call -/

variable {e e' : MarketDataEngine T D} {c : Call T D}

theorem handle_unknown (h : e.orderBooks c.event.symbol = none) : e.handle c = e := callback_unknown h

/-- A call of a known symbol queues one update, of that symbol. -/
theorem handle_known {b : OrderBook D} (h : e.orderBooks c.event.symbol = some b) :
    (e.handle c).orderBooks c.event.symbol = some (c.event.book b) ∧
      (e.handle c).updateQueue = e.updateQueue ++ [(c.thread, c.event.update c.uninit (c.event.book b))] := by
  rw [handle, callback_known h]
  exact ⟨Function.update_self .., rfl⟩

theorem handle_orderBooks_ne {x : String} (h : c.event.symbol ≠ x) : (e.handle c).orderBooks x = e.orderBooks x := by
  rw [handle, callback_orderBooks, if_neg fun he => h he.symm]

theorem handle_queuedFor_ne {x : String} (h : c.event.symbol ≠ x) :
    queuedFor x (e.handle c) = queuedFor x e := by
  cases hb : e.orderBooks c.event.symbol with
  | none => rw [handle_unknown hb]
  | some b =>
    rw [queuedFor, (handle_known hb).2, List.filter_append, List.filter_singleton]
    simp [queuedFor, h]

/-- What a call does to its symbol's book and queued updates depends on these only. -/
theorem handle_congr (hb : e.orderBooks c.event.symbol = e'.orderBooks c.event.symbol)
    (hq : queuedFor c.event.symbol e = queuedFor c.event.symbol e') :
    (e.handle c).orderBooks c.event.symbol = (e'.handle c).orderBooks c.event.symbol ∧
      queuedFor c.event.symbol (e.handle c) = queuedFor c.event.symbol (e'.handle c) := by
  cases hk : e.orderBooks c.event.symbol with
  | none =>
    have hk' : e'.orderBooks c.event.symbol = none := hb.symm.trans hk
    rw [handle_unknown hk, handle_unknown hk']
    exact ⟨hb, hq⟩
  | some b =>
    have hk' : e'.orderBooks c.event.symbol = some b := hb.symm.trans hk
    obtain ⟨hbook, hqueue⟩ := handle_known hk
    obtain ⟨hbook', hqueue'⟩ := handle_known hk'
    refine ⟨hbook.trans hbook'.symm, ?_⟩
    unfold queuedFor at hq ⊢
    rw [hqueue, hqueue', List.filter_append, List.filter_append, hq]

theorem handle_orderBooks_eq_none (x : String) : (e.handle c).orderBooks x = none ↔ e.orderBooks x = none := by
  rw [handle, callback_orderBooks]
  split <;> simp

/-! ## Runs -/

@[simp] theorem handleAll_cons (calls : List (Call T D)) : e.handleAll (c :: calls) = (e.handle c).handleAll calls := rfl

/-- No run makes a symbol known or unknown. -/
theorem handleAll_known (e : MarketDataEngine T D) (calls : List (Call T D)) (x : String) :
    (e.handleAll calls).orderBooks x = none ↔ e.orderBooks x = none := by
  induction calls generalizing e with
  | nil => exact Iff.rfl
  | cons c calls ih => rw [handleAll_cons, ih, handle_orderBooks_eq_none]

/-- The symbol's book and its queued updates after a run are those after the calls of that symbol. -/
theorem handleAll_filter (e : MarketDataEngine T D) (calls : List (Call T D)) (x : String) :
    (e.handleAll calls).orderBooks x = (e.handleAll (calls.filter fun c => c.event.symbol = x)).orderBooks x ∧
      queuedFor x (e.handleAll calls) = queuedFor x (e.handleAll (calls.filter fun c => c.event.symbol = x)) := by
  have hview := view_foldl_filter handle (fun e : MarketDataEngine T D => (e.orderBooks x, queuedFor x e))
    (fun c => c.event.symbol = x) ?_ ?_ calls (Eq.refl (e.orderBooks x, queuedFor x e))
  · exact Prod.mk.inj hview
  · rintro e e' c rfl h
    obtain ⟨hb, hq⟩ := Prod.mk.inj h
    exact Prod.ext_iff.2 (handle_congr hb hq)
  · intro e c hc
    exact Prod.ext_iff.2 ⟨handle_orderBooks_ne hc, handle_queuedFor_ne hc⟩

/-- A run queues one update for each call of a known symbol. -/
theorem queuedFor_handleAll_length (e : MarketDataEngine T D) (calls : List (Call T D)) {x : String}
    (h : e.orderBooks x ≠ none) :
    (queuedFor x (e.handleAll calls)).length =
      (queuedFor x e).length + (calls.filter fun c => c.event.symbol = x).length := by
  induction calls generalizing e with
  | nil => rfl
  | cons c calls ih =>
    rw [handleAll_cons, ih _ (mt (handle_orderBooks_eq_none x).1 h)]
    by_cases hx : c.event.symbol = x
    · subst hx
      obtain ⟨b, hb⟩ := Option.ne_none_iff_exists'.1 h
      rw [queuedFor, (handle_known hb).2, List.filter_append, List.filter_singleton]
      simp [queuedFor]
      omega
    · rw [handle_queuedFor_ne hx, List.filter_cons_of_neg (by simpa using hx)]

/-- **Symbols do not interfere**: after `initialize` and any calls, a symbol's book and its queued updates are those
that its own calls leave; on the way a call of an unknown symbol changes nothing, and a call of a known one queues
exactly one update. -/
theorem initializeEngine_handleAll_filter (e₀ : MarketDataEngine T D) (symbols : List String)
    (calls : List (Call T D)) :
    (∀ x, ((e₀.initializeEngine symbols).handleAll calls).getOrderBook x =
        ((e₀.initializeEngine symbols).handleAll (calls.filter fun c => c.event.symbol = x)).getOrderBook x ∧
      queuedFor x ((e₀.initializeEngine symbols).handleAll calls) =
        queuedFor x ((e₀.initializeEngine symbols).handleAll (calls.filter fun c => c.event.symbol = x))) ∧
    ∀ pre c post, calls = pre ++ c :: post →
      ((e₀.initializeEngine symbols).getOrderBook c.event.symbol = none →
        ((e₀.initializeEngine symbols).handleAll pre).handle c = (e₀.initializeEngine symbols).handleAll pre) ∧
      ((e₀.initializeEngine symbols).getOrderBook c.event.symbol ≠ none →
        ∃ u, u.symbol = c.event.symbol ∧
          (((e₀.initializeEngine symbols).handleAll pre).handle c).updateQueue =
            ((e₀.initializeEngine symbols).handleAll pre).updateQueue ++ [(c.thread, u)]) := by
  refine ⟨handleAll_filter _ calls, fun pre c post _ => ⟨fun hu => ?_, fun hk => ?_⟩⟩
  · exact handle_unknown ((handleAll_known _ pre _).2 hu)
  · obtain ⟨b, hb⟩ := Option.ne_none_iff_exists'.1 (mt (handleAll_known _ pre _).1 hk)
    exact ⟨_, MarketEvent.update_symbol .., (handle_known hb).2⟩

end MarketDataEngine

end CryptoHft
