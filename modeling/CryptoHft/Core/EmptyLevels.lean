import CryptoHft.Core.Calls
import CryptoHft.Core.LevelLists

/-!
# Levels of size 0

A size of 0 says that a level is gone. The delta handler erases such a level; the snapshot handler stores it, unless a
later level of the snapshot has the same price.

* A book that stores no size 0 names no empty level (`noEmptyLevel_iff`).
* Deltas keep the books so (`applyDelta_noZero`); a snapshot leaves its book so exactly when it overwrites each of its
  levels of size 0 (`installSnapshot_noZero_iff`). Over runs: `handleAll_noEmptyLevel_iff`.
-/

namespace CryptoHft

open Std OrderedMap

namespace OrderBook

variable {D : Type} [LinearOrder D] [Zero D]

/-- A price is on a side exactly when its volume there is not 0; so is the best price of a side that is not empty. -/
structure NoEmptyLevel (b : OrderBook D) : Prop where
  bids : ∀ p, p ∈ b.bids ↔ b.getBidVolume p ≠ 0
  asks : ∀ q, q ∈ b.asks ↔ b.getAskVolume q ≠ 0
  bestBid : b.bids ≠ ∅ → b.getBidVolume b.getBestBid ≠ 0
  bestAsk : b.asks ≠ ∅ → b.getAskVolume b.getBestAsk ≠ 0

theorem noZero_bids_iff {b : OrderBook D} : NoZero b.bids ↔ ∀ p, p ∈ b.bids ↔ b.getBidVolume p ≠ 0 := by
  refine forall_congr' fun p => ?_
  rw [getBidVolume, mem_iff_exists]
  cases b.bids[p]? <;> simp

theorem noZero_asks_iff {b : OrderBook D} : NoZero b.asks ↔ ∀ q, q ∈ b.asks ↔ b.getAskVolume q ≠ 0 := by
  refine forall_congr' fun q => ?_
  rw [getAskVolume, mem_iff_exists]
  cases b.asks[q]? <;> simp

theorem noEmptyLevel_iff {b : OrderBook D} : b.NoEmptyLevel ↔ NoZero b.bids ∧ NoZero b.asks := by
  rw [noZero_bids_iff, noZero_asks_iff]
  constructor
  · intro h
    exact ⟨h.bids, h.asks⟩
  · rintro ⟨hbids, hasks⟩
    exact ⟨hbids, hasks, fun hne => (hbids _).1 (getBestBid_spec hne).1, fun hne => (hasks _).1 (getBestAsk_spec hne).1⟩

theorem empty_noEmptyLevel : (empty : OrderBook D).NoEmptyLevel := by
  refine noEmptyLevel_iff.2 ⟨fun p => ?_, fun q => ?_⟩ <;> simp [empty]

end OrderBook

namespace MarketEvent

variable {D : Type} [LinearOrder D] [Zero D]

/-- A snapshot overwrites each of its levels of size 0. -/
def OverwritesZeros : MarketEvent D → Prop
  | snapshot s => ZerosOverwritten s.bids ∧ ZerosOverwritten s.asks
  | delta _ => True

end MarketEvent

namespace MarketDataEngine

variable {T D : Type} [LinearOrder D] [Zero D]

/-! ## One message -/

theorem applyDelta_noZero {b : OrderBook D} (h : b.NoEmptyLevel) (delta : OrderBookDelta D) :
    (applyDelta b delta).NoEmptyLevel := by
  obtain ⟨hbids, hasks⟩ := OrderBook.noEmptyLevel_iff.1 h
  rw [applyDelta, foldl_applyBid, foldl_applyAsk]
  exact OrderBook.noEmptyLevel_iff.2 ⟨noZero_updateAllIf hbids _, noZero_updateAllIf hasks _⟩

theorem installSnapshot_noZero_iff (b : OrderBook D) (snapshot : OrderBookSnapshot D) :
    (installSnapshot b snapshot).NoEmptyLevel ↔ ZerosOverwritten snapshot.bids ∧ ZerosOverwritten snapshot.asks := by
  rw [OrderBook.noEmptyLevel_iff, installSnapshot_eq, ofLevels, noZero_ofList, noZero_ofList]

/-- What keeps a book from naming an empty level. -/
theorem book_noEmptyLevel_iff {b : OrderBook D} (h : b.NoEmptyLevel) (ev : MarketEvent D) :
    (ev.book b).NoEmptyLevel ↔ ev.OverwritesZeros := by
  cases ev with
  | snapshot s => exact installSnapshot_noZero_iff b s
  | delta d => exact iff_of_true (applyDelta_noZero h d) trivial

/-! ## Runs -/

/-- No book of the engine names an empty level. -/
def NoEmptyLevels (e : MarketDataEngine T D) : Prop := ∀ x b, e.getOrderBook x = some b → b.NoEmptyLevel

theorem handle_noEmptyLevels {e : MarketDataEngine T D} (h : e.NoEmptyLevels) {c : Call T D}
    (hc : e.orderBooks c.event.symbol ≠ none → c.event.OverwritesZeros) : (e.handle c).NoEmptyLevels := by
  intro x b hb
  rw [getOrderBook] at hb
  by_cases hx : c.event.symbol = x
  · subst hx
    cases hk : e.orderBooks c.event.symbol with
    | none => rw [handle_unknown hk, hk] at hb; cases hb
    | some b₀ =>
      rw [(handle_known hk).1] at hb
      cases hb
      exact (book_noEmptyLevel_iff (h _ b₀ hk) c.event).2 (hc (by simp [hk]))
  · rw [handle_orderBooks_ne hx] at hb
    exact h x b hb

theorem handleAll_noEmptyLevels {e : MarketDataEngine T D} (h : e.NoEmptyLevels) {calls : List (Call T D)}
    (hcalls : ∀ c ∈ calls, e.orderBooks c.event.symbol ≠ none → c.event.OverwritesZeros) :
    (e.handleAll calls).NoEmptyLevels := by
  induction calls generalizing e with
  | nil => exact h
  | cons c calls ih =>
    refine ih (handle_noEmptyLevels h (hcalls c List.mem_cons_self)) fun c' hc' hk => ?_
    exact hcalls c' (List.mem_cons_of_mem _ hc') (mt (handle_orderBooks_eq_none _).2 hk)

omit [Zero D] in
theorem initializeEngine_known_iff (symbols : List String) (x : String) :
    ((constructed : MarketDataEngine T D).initializeEngine symbols).orderBooks x ≠ none ↔ x ∈ symbols := by
  rw [initializeEngine_orderBooks rfl]
  split <;> simp_all [constructed]

theorem initializeEngine_noEmptyLevels (symbols : List String) :
    ((constructed : MarketDataEngine T D).initializeEngine symbols).NoEmptyLevels := by
  intro x b hb
  rw [getOrderBook, initializeEngine_orderBooks rfl] at hb
  split at hb
  · cases hb; exact OrderBook.empty_noEmptyLevel
  · cases hb

/-- **No book ever names an empty level** exactly when every snapshot of a listed symbol overwrites each of its levels
of size 0. -/
theorem handleAll_noEmptyLevel_iff (symbols : List String) (calls : List (Call T D)) :
    (∀ pre post, calls = pre ++ post →
      ((constructed : MarketDataEngine T D).initializeEngine symbols |>.handleAll pre).NoEmptyLevels) ↔
      ∀ c ∈ calls, c.event.symbol ∈ symbols → c.event.OverwritesZeros := by
  constructor
  · intro h c hc hsym
    obtain ⟨pre, post, rfl⟩ := List.append_of_mem hc
    have hk := mt (handleAll_known _ pre _).1 ((initializeEngine_known_iff (T := T) (D := D) _ _).2 hsym)
    obtain ⟨b, hb⟩ := Option.ne_none_iff_exists'.1 hk
    have hbefore := h pre (c :: post) rfl c.event.symbol b hb
    have hafter := h (pre ++ [c]) post (by simp) c.event.symbol (c.event.book b)
    rw [handleAll, List.foldl_append] at hafter
    exact (book_noEmptyLevel_iff hbefore c.event).1 (hafter (handle_known hb).1)
  · rintro h pre post rfl
    refine handleAll_noEmptyLevels (initializeEngine_noEmptyLevels symbols) fun c hc hk => ?_
    exact h c (List.mem_append_left _ hc) ((initializeEngine_known_iff _ _).1 hk)

/-- One snapshot with a bid of size 0: the best bid is a price without volume. -/
theorem phantom_best_bid :
    ∃ b, ((constructed : MarketDataEngine ℕ ℤ).initializeEngine ["BTC-USD"] |>.handleAll
        [⟨0, ⟨"", 0, 0, 0, 0, 0, false⟩, .snapshot ⟨"BTC-USD", [(50000, 0), (49900, 1)], [(50100, 1)], 0⟩⟩]).getOrderBook
          "BTC-USD" = some b ∧ ¬ b.NoEmptyLevel ∧
      b.getBestBid = 50000 ∧ (50000 : ℤ) ∈ b.bids ∧ b.getBidVolume 50000 = 0 := by
  refine ⟨⟨ExtTreeMap.ofList [(50000, 0), (49900, 1)] greater, ExtTreeMap.ofList [(50100, 1)] compare⟩, by decide, ?_,
    by decide, by decide, by decide⟩
  intro h
  exact (h.bids 50000).1 (by decide) (by decide)

end MarketDataEngine

end CryptoHft
