import CryptoHft.Core.Calls
import CryptoHft.Core.LevelLists

/-!
# The engine as a replica of the exchanges' books

What the books of the engine are for: the exchange of a symbol has a book of its own, of which it sends a snapshot now
and then, and a delta for every change. The exchange's book is a ladder that never crosses itself; a snapshot lists it,
in any order, and a delta lists the prices that change (`Honest`, `announced`).

* A delta that is lost in part loses bids, never asks: after a snapshot, the engine has all asks of the exchange, and no
  bid that the exchange has not (`Follows`, `run_follows`).
* The engine mirrors the exchange in every state of a run exactly when no delta of it leaves a bid at or above an ask of
  the exchange's book just before (`run_mirrors_iff`).
* A bid is missing exactly when the last message that lists its price left it at or above an ask of the book just before
  (`run_missing_iff`).
* Sent as two deltas, the removals first, a change is never lost (`applyDelta_removals_first`).
* When each message comes twice in a row, nothing is lost after the second time (`run_repeated`).
-/

namespace CryptoHft

open Std OrderedMap Machine

variable {T D : Type} [LinearOrder D]

/-! ## Messages of an exchange -/

section Messages

variable [Zero D]

/-- The exchange's book after it has sent the message. -/
def announced : MarketEvent D → Ladder D D → Ladder D D
  | .snapshot _, l => l
  | .delta d, l => fun
    | .bid => change d.bidUpdates (l .bid)
    | .ask => change d.askUpdates (l .ask)

/-- An exchange with the book `l` sends the message: a snapshot is one of its book, and the book that a delta leaves is
not crossed. -/
def Honest (l : Ladder D D) : MarketEvent D → Prop
  | .snapshot s => ∀ p v, (l .bid p = some v ↔ LastEntry s.bids p v) ∧ (l .ask p = some v ↔ LastEntry s.asks p v)
  | .delta d => (announced (.delta d) l).Uncrossed

/-- The delta leaves a bid at the price, at or above an ask of the book just before. -/
def Reaches (l : Ladder D D) (d : OrderBookDelta D) (p : D) : Prop :=
  (∃ v, announced (.delta d) l .bid p = some v) ∧ ∃ q w, l .ask q = some w ∧ q ≤ p

theorem announced_uncrossed {l : Ladder D D} {ev : MarketEvent D} (hl : l.Uncrossed) (h : Honest l ev) :
    (announced ev l).Uncrossed := by
  cases ev with
  | snapshot s => exact hl
  | delta d => exact h

/-- Sent again, a message says nothing new. -/
theorem announced_announced (ev : MarketEvent D) (l : Ladder D D) : announced ev (announced ev l) = announced ev l := by
  cases ev with
  | snapshot s => rfl
  | delta d =>
    funext s
    cases s with
    | bid => exact change_change ..
    | ask => exact change_change ..

/-- What an exchange has sent it can send again. -/
theorem Honest.again {l : Ladder D D} {ev : MarketEvent D} (h : Honest l ev) : Honest (announced ev l) ev := by
  cases ev with
  | snapshot s => exact h
  | delta d =>
    rw [Honest, announced_announced]
    exact h

theorem view_plain (b : OrderBook D) (d : OrderBookDelta D) :
    (MarketDataEngine.plain b d).view = announced (.delta d) b.view := by
  funext s p
  cases s with
  | bid => exact getElem?_updateAll d.bidUpdates b.bids p
  | ask => exact getElem?_updateAll d.askUpdates b.asks p

omit [Zero D] in
theorem view_injective {b b' : OrderBook D} (h : b.view = b'.view) : b = b' := by
  refine OrderBook.ext_sides (ExtTreeMap.ext_getElem? fun p => ?_) (ExtTreeMap.ext_getElem? fun p => ?_)
  · exact congrFun (congrFun h .bid) p
  · exact congrFun (congrFun h .ask) p

/-- A snapshot installs the book of its exchange. -/
theorem view_installSnapshot (b : OrderBook D) {l : Ladder D D} {s : OrderBookSnapshot D}
    (h : Honest l (.snapshot s)) : (MarketDataEngine.installSnapshot b s).view = l := by
  rw [MarketDataEngine.installSnapshot_eq]
  funext side p
  apply Option.ext
  intro v
  cases side with
  | bid => exact getElem?_ofList.trans (h p v).1.symm
  | ask => exact getElem?_ofList.trans (h p v).2.symm

/-! ## Following an exchange -/

/-- The book has the asks of the exchange's, and no bid that the exchange's has not. -/
structure Follows (b : OrderBook D) (l : Ladder D D) : Prop where
  asks : ∀ q, b.view .ask q = l .ask q
  bids : ∀ p v, b.view .bid p = some v → l .bid p = some v

omit [Zero D] in
theorem follows_of_eq {b : OrderBook D} {l : Ladder D D} (h : b.view = l) : Follows b l :=
  ⟨fun q => by rw [h], fun p v hv => by rw [← h, hv]⟩

variable {b : OrderBook D} {l : Ladder D D} {d : OrderBookDelta D}

omit [Zero D] in
theorem Follows.uncrossed (h : Follows b l) (hl : l.Uncrossed) : b.Uncrossed := by
  rw [OrderBook.uncrossed_iff]
  intro s p v hp q w hq
  cases s with
  | bid => exact hl .bid p v (h.bids p v hp) q w ((h.asks q).symm.trans hq)
  | ask => exact hl .ask p v ((h.asks p).symm.trans hp) q w (h.bids q w hq)

omit [Zero D] in
/-- The guard of the bid loop, said of the exchange's book. -/
theorem Follows.acceptsBid_iff (h : Follows b l) (p : D) :
    b.acceptsBid p = true ↔ ∀ q w, l .ask q = some w → p < q := by
  rw [b.acceptsBid_iff]
  constructor
  · intro hp q w hq
    exact hp q (mem_of_getElem? ((h.asks q).trans hq))
  · intro hp q hq
    obtain ⟨w, hw⟩ := mem_iff_exists.1 hq
    exact hp q w ((h.asks q).symm.trans hw)

/-- The bids that a delta leaves: those below the asks just before are the plain ones, the others are gone. -/
theorem Follows.bids_applyDelta (h : Follows b l) (hl : l.Uncrossed) (p : D) :
    (MarketDataEngine.applyDelta b d).view .bid p =
      if b.acceptsBid p = true then change d.bidUpdates (b.view .bid) p else none := by
  have hold : ∀ p ∈ b.bids, b.acceptsBid p = true := by
    intro p hp
    exact (b.acceptsBid_iff p).2 (h.uncrossed hl p hp)
  rw [OrderBook.view_bid, MarketDataEngine.bids_applyDelta]
  split
  · next hp =>
    rw [getElem?_updateAllIf_of_pos (g := fun p => b.acceptsBid p = true) hp d.bidUpdates rfl]
    exact getElem?_updateAll d.bidUpdates b.bids p
  · next hp =>
    refine getElem?_updateAllIf_of_neg (g := fun p => b.acceptsBid p = true) hp d.bidUpdates ?_
    exact ExtTreeMap.getElem?_eq_none fun hm => hp (hold p hm)

/-- A delta of the exchange keeps the book following it. -/
theorem Follows.applyDelta (h : Follows b l) (hl : l.Uncrossed) (hd : Honest l (.delta d)) :
    Follows (MarketDataEngine.applyDelta b d) (announced (.delta d) l) := by
  have hbids : ∀ p v, (MarketDataEngine.applyDelta b d).view .bid p = some v →
      (∀ q w, l .ask q = some w → p < q) ∧ announced (.delta d) l .bid p = some v := by
    intro p v hp
    rw [h.bids_applyDelta hl] at hp
    split at hp
    · next hacc =>
      refine ⟨(h.acceptsBid_iff p).1 hacc, ?_⟩
      by_cases hlisted : p ∈ d.bidUpdates.map Prod.fst
      · rwa [change_of_mem hlisted _ (l .bid)] at hp
      · rw [change_of_not_mem hlisted] at hp
        exact (change_of_not_mem hlisted _).trans (h.bids p v hp)
    · cases hp
  refine ⟨fun q => ?_, fun p v hp => (hbids p v hp).2⟩
  -- the ask loop compares with bids of the exchange only, and drops nothing
  have hguard : ∀ q, (∀ p ∈ (MarketDataEngine.applyDelta b d).bids, p < q) →
      (d.bidUpdates.foldl MarketDataEngine.applyBid b).acceptsAsk q = true := by
    intro q hq
    rw [OrderBook.acceptsAsk_iff, MarketDataEngine.foldl_applyBid]
    rw [MarketDataEngine.bids_applyDelta] at hq
    exact hq
  have hasks : (MarketDataEngine.applyDelta b d).asks = updateAll b.asks d.askUpdates := by
    rw [MarketDataEngine.applyDelta, MarketDataEngine.foldl_applyAsk, MarketDataEngine.foldl_applyBid]
    rw [MarketDataEngine.foldl_applyBid] at hguard
    refine (updateAllIf_eq_iff (fun q hq => hguard q fun p hp => ?_) d.askUpdates).2 fun q hq => hguard q fun p hp => ?_
    · obtain ⟨v, hv⟩ := mem_iff_exists.1 hp
      obtain ⟨w, hw⟩ := mem_iff_exists.1 hq
      exact (hbids p v hv).1 q w ((h.asks q).symm.trans hw)
    · obtain ⟨v, hv⟩ := mem_iff_exists.1 hp
      obtain ⟨w, hw⟩ := mem_iff_exists.1 hq
      have hfun : (fun q => b.asks[q]?) = l .ask := funext h.asks
      rw [getElem?_updateAll, hfun] at hw
      exact hd .bid p v (hbids p v hv).2 q w hw
  rw [OrderBook.view_ask, hasks, getElem?_updateAll]
  exact congrFun (congrArg (change d.askUpdates) (funext h.asks)) q

/-- A delta loses exactly the bids that reach an ask of the book just before, and keeps missing the bids that it does
not list. -/
theorem Follows.missing_iff (h : Follows b l) (hl : l.Uncrossed) (p : D) :
    ((∃ v, announced (.delta d) l .bid p = some v) ∧ (MarketDataEngine.applyDelta b d).view .bid p = none) ↔
      (p ∈ d.bidUpdates.map Prod.fst ∧ Reaches l d p) ∨
        p ∉ d.bidUpdates.map Prod.fst ∧ (∃ v, l .bid p = some v) ∧ b.view .bid p = none := by
  have hreaches : Reaches l d p ↔ (∃ v, announced (.delta d) l .bid p = some v) ∧ ¬ b.acceptsBid p = true := by
    refine and_congr_right fun _ => ?_
    rw [h.acceptsBid_iff]
    push Not
    rfl
  rw [h.bids_applyDelta hl, hreaches]
  by_cases hlisted : p ∈ d.bidUpdates.map Prod.fst
  · have hannounced : announced (.delta d) l .bid p = change d.bidUpdates (b.view .bid) p :=
      change_of_mem hlisted _ _
    rw [hannounced]
    split
    · next hacc =>
      simp only [hacc, not_true_eq_false, and_false, false_or, hlisted, false_and, iff_false, not_and]
      rintro ⟨v, hv⟩ hnone
      rw [hv] at hnone
      cases hnone
    · next hacc => simp [hacc, hlisted]
  · have hannounced : announced (.delta d) l .bid p = l .bid p := change_of_not_mem hlisted _
    rw [hannounced, change_of_not_mem hlisted]
    simp only [hlisted, false_and, not_false_eq_true, true_and, false_or]
    split
    · exact Iff.rfl
    · next hacc =>
      refine and_congr_right fun _ => iff_of_true rfl (ExtTreeMap.getElem?_eq_none fun hm => hacc ?_)
      exact (b.acceptsBid_iff p).2 (h.uncrossed hl p hm)

/-- Only listed bids reach an ask. -/
theorem Reaches.listed (hl : l.Uncrossed) {p : D} (h : Reaches l d p) : p ∈ d.bidUpdates.map Prod.fst := by
  obtain ⟨⟨v, hv⟩, q, w, hq, hle⟩ := h
  by_contra hlisted
  have hold : l .bid p = some v := (change_of_not_mem hlisted _).symm.trans hv
  exact absurd (hl .bid p v hold q w hq) hle.not_gt

omit [Zero D] in
/-- A book that follows the exchange's mirrors it when it misses no bid. -/
theorem Follows.eq_iff (h : Follows b l) : b.view = l ↔ ∀ p, ¬ ((∃ v, l .bid p = some v) ∧ b.view .bid p = none) := by
  constructor
  · rintro rfl p ⟨⟨v, hv⟩, hnone⟩
    rw [hv] at hnone
    cases hnone
  · intro hall
    funext side p
    cases side with
    | ask => exact h.asks p
    | bid =>
      cases hb : b.view .bid p with
      | some v => exact (h.bids p v hb).symm
      | none =>
        cases hp : l .bid p with
        | none => rfl
        | some v => exact absurd ⟨⟨v, hp⟩, hb⟩ (hall p)

end Messages

/-! ## Removals first -/

section RemovalsFirst

variable [Zero D]

/-- The entries of the delta that remove a level. -/
def removals (d : OrderBookDelta D) : OrderBookDelta D :=
  { d with
    bidUpdates := d.bidUpdates.filter fun u => u.2 = 0
    askUpdates := d.askUpdates.filter fun u => u.2 = 0 }

/-- The entries of the delta that write a level. -/
def writings (d : OrderBookDelta D) : OrderBookDelta D :=
  { d with
    bidUpdates := d.bidUpdates.filter fun u => u.2 ≠ 0
    askUpdates := d.askUpdates.filter fun u => u.2 ≠ 0 }

/-- Removals are never rejected. -/
theorem applyDelta_removals {b : OrderBook D} (hb : b.Uncrossed) (d : OrderBookDelta D) :
    MarketDataEngine.applyDelta b (removals d) = MarketDataEngine.plain b (removals d) := by
  have hbids : ∀ p ∈ (MarketDataEngine.plain b (removals d)).bids, p ∈ b.bids :=
    fun p hp => mem_of_mem_updateAll (fun u hu => by simpa using List.of_mem_filter hu) hp
  have hasks : ∀ q ∈ (MarketDataEngine.plain b (removals d)).asks, q ∈ b.asks :=
    fun q hq => mem_of_mem_updateAll (fun u hu => by simpa using List.of_mem_filter hu) hq
  have hplain : (MarketDataEngine.plain b (removals d)).Uncrossed :=
    fun p hp q hq => hb p (hbids p hp) q (hasks q hq)
  exact (MarketDataEngine.applyDelta_eq_plain_iff hb hplain).2 fun p hp q hq => hb p (hbids p hp) q hq

/-- **Removals first**: of a delta that lists each price once, the removals and then the rest, as two deltas, always
leave the plain result, also where the delta in one piece loses bids. -/
theorem applyDelta_removals_first (b : OrderBook D) (hb : b.Uncrossed) (d : OrderBookDelta D)
    (hplain : (MarketDataEngine.plain b d).Uncrossed) (hbids : (d.bidUpdates.map Prod.fst).Nodup)
    (hasks : (d.askUpdates.map Prod.fst).Nodup) :
    MarketDataEngine.applyDelta (MarketDataEngine.applyDelta b (removals d)) (writings d) =
      MarketDataEngine.plain b d := by
  have htwo : MarketDataEngine.plain (MarketDataEngine.plain b (removals d)) (writings d) =
      MarketDataEngine.plain b d :=
    OrderBook.ext_sides (updateAll_erasing_first hbids b.bids) (updateAll_erasing_first hasks b.asks)
  -- the asks that the removals leave are asks of the plain result
  have hkept : ∀ q ∈ (MarketDataEngine.plain b (removals d)).asks, q ∈ (MarketDataEngine.plain b d).asks := by
    intro q hq
    rw [← htwo]
    exact mem_updateAll_of_mem (fun u hu => by simpa using List.of_mem_filter hu) hq
  have hfirst : (MarketDataEngine.plain b (removals d)).Uncrossed := by
    intro p hp q hq
    have hmem : p ∈ (MarketDataEngine.plain b d).bids := by
      rw [← htwo]
      exact mem_updateAll_of_mem (fun u hu => by simpa using List.of_mem_filter hu) hp
    exact hplain p hmem q (hkept q hq)
  rw [applyDelta_removals hb, ← htwo]
  rw [← htwo] at hplain
  refine (MarketDataEngine.applyDelta_eq_plain_iff hfirst hplain).2 fun p hp q hq => ?_
  rw [htwo] at hp hplain
  exact hplain p hp q (hkept q hq)

/-- The move of the touch that loses a bid in one piece. -/
theorem touchUp_removals_first :
    MarketDataEngine.applyDelta
        (MarketDataEngine.applyDelta MarketDataEngine.touchBook (removals MarketDataEngine.touchUp))
        (writings MarketDataEngine.touchUp) =
      MarketDataEngine.plain MarketDataEngine.touchBook MarketDataEngine.touchUp :=
  applyDelta_removals_first _ (by decide) _ (by decide) (by decide) (by decide)

end RemovalsFirst

/-! ## The engine and the exchanges -/

structure Replica (T D : Type) [LinearOrder D] where
  engine : MarketDataEngine T D
  /-- The book of each symbol's exchange. -/
  market : String → Ladder D D

namespace Replica

variable [Zero D]

/-- A message of the symbol's exchange, handled by the engine. -/
noncomputable def step (s : Replica T D) (c : Call T D) : Option (Replica T D) :=
  open Classical in
  if Honest (s.market c.event.symbol) c.event then
    some
      ⟨s.engine.handle c,
        Function.update s.market c.event.symbol (announced c.event (s.market c.event.symbol))⟩
  else none

/-- The book of the symbol is there and stands in the relation to the exchange's. -/
def Holds (R : OrderBook D → Ladder D D → Prop) (x : String) (s : Replica T D) : Prop :=
  ∃ b, s.engine.orderBooks x = some b ∧ R b (s.market x)

variable {s s' : Replica T D} {c : Call T D} {x : String}

theorem step_eq (h : step s c = some s') :
    Honest (s.market c.event.symbol) c.event ∧ s'.engine = s.engine.handle c ∧
      s'.market = Function.update s.market c.event.symbol (announced c.event (s.market c.event.symbol)) := by
  unfold step at h
  split at h
  · next hh => cases h; exact ⟨hh, rfl, rfl⟩
  · cases h

theorem step_of_honest (h : Honest (s.market c.event.symbol) c.event) : ∃ s', step s c = some s' := ⟨_, if_pos h⟩

/-- A message of another symbol. -/
theorem step_other (h : step s c = some s') (hx : c.event.symbol ≠ x) :
    s'.engine.orderBooks x = s.engine.orderBooks x ∧ s'.market x = s.market x := by
  obtain ⟨-, hengine, hmarket⟩ := step_eq h
  rw [hengine, hmarket]
  exact ⟨MarketDataEngine.handle_orderBooks_ne hx, Function.update_of_ne (Ne.symm hx) ..⟩

/-- A message of the symbol. -/
theorem step_self (h : step s c = some s') (hx : c.event.symbol = x) :
    Honest (s.market x) c.event ∧ s'.market x = announced c.event (s.market x) ∧
      s'.engine.orderBooks x = (s.engine.orderBooks x).map fun b => c.event.book b := by
  subst hx
  obtain ⟨hh, hengine, hmarket⟩ := step_eq h
  refine ⟨hh, ?_, ?_⟩
  · rw [hmarket, Function.update_self]
  · rw [hengine, MarketDataEngine.handle, MarketDataEngine.callback_orderBooks, if_pos rfl]

/-- The book of the symbol follows its exchange's, which is not crossed. -/
def Following (x : String) (s : Replica T D) : Prop := s.Holds Follows x ∧ (s.market x).Uncrossed

/-- The book of the symbol is its exchange's. -/
def Mirroring (x : String) (s : Replica T D) : Prop := s.Holds (fun b l => b.view = l) x

/-- A snapshot of the symbol, whatever its book was. -/
theorem step_snapshot {snapshot : OrderBookSnapshot D} (h : step s c = some s') (hc : c.event = .snapshot snapshot)
    (hx : c.event.symbol = x) (hknown : s.engine.orderBooks x ≠ none) : s'.Mirroring x := by
  obtain ⟨b, hb⟩ := Option.ne_none_iff_exists'.1 hknown
  obtain ⟨hh, hmarket, hbook⟩ := step_self h hx
  rw [hc] at hh hmarket hbook
  refine ⟨_, by rw [hbook, hb]; rfl, ?_⟩
  rw [hmarket]
  exact view_installSnapshot b hh

theorem step_uncrossed (hs : (s.market x).Uncrossed) (h : step s c = some s') : (s'.market x).Uncrossed := by
  by_cases hx : c.event.symbol = x
  · obtain ⟨hh, hmarket, -⟩ := step_self h hx
    rw [hmarket]
    exact announced_uncrossed hs hh
  · rw [(step_other h hx).2]
    exact hs

theorem step_following (hs : s.Following x) (h : step s c = some s') : s'.Following x := by
  obtain ⟨⟨b, hb, hf⟩, hunc⟩ := hs
  refine ⟨?_, step_uncrossed hunc h⟩
  by_cases hx : c.event.symbol = x
  · cases hc : c.event with
    | snapshot snapshot =>
      obtain ⟨b', hb', heq⟩ := step_snapshot h hc hx (by rw [hb]; simp)
      exact ⟨b', hb', follows_of_eq heq⟩
    | delta d =>
      obtain ⟨hh, hmarket, hbook⟩ := step_self h hx
      rw [hc] at hh hmarket hbook
      refine ⟨_, by rw [hbook, hb]; rfl, ?_⟩
      rw [hmarket]
      exact hf.applyDelta hunc hh
  · obtain ⟨hbook, hmarket⟩ := step_other h hx
    exact ⟨b, hbook.trans hb, hmarket ▸ hf⟩

/-! ## Runs -/

/-- A delta of the symbol leaves no bid at or above an ask of the exchange's book just before. -/
def Clear (x : String) (s : Replica T D) (c : Call T D) : Prop :=
  ∀ d, c.event = .delta d → d.symbol = x → ∀ p, ¬ Reaches (s.market x) d p

/-- From a book that mirrors the exchange's, one step. -/
theorem step_mirrors_iff (hs : s.Following x) (hm : s.Mirroring x) (h : step s c = some s') :
    s'.Mirroring x ↔ s.Clear x c := by
  obtain ⟨b, hb, heq⟩ := hm
  have hunc := hs.2
  by_cases hx : c.event.symbol = x
  · cases hc : c.event with
    | snapshot snapshot =>
      refine iff_of_true (step_snapshot h hc hx (by rw [hb]; simp)) fun d hd => ?_
      rw [hc] at hd
      cases hd
    | delta d =>
      obtain ⟨hh, hmarket, hbook⟩ := step_self h hx
      rw [hc] at hh hmarket hbook hx
      have hf : Follows b (s.market x) := follows_of_eq heq
      have hbook' : s'.engine.orderBooks x = some (MarketDataEngine.applyDelta b d) := by rw [hbook, hb]; rfl
      have hiff : s'.Mirroring x ↔
          (MarketDataEngine.applyDelta b d).view = announced (.delta d) (s.market x) := by
        constructor
        · rintro ⟨b', hb', heq'⟩
          rw [hbook'] at hb'
          cases hb'
          exact heq'.trans hmarket
        · exact fun heq' => ⟨_, hbook', heq'.trans hmarket.symm⟩
      rw [hiff, (hf.applyDelta hunc hh).eq_iff]
      simp only [hf.missing_iff hunc]
      constructor
      · intro hall d' hd' _ p hreach
        rw [hc] at hd'
        cases hd'
        exact hall p (Or.inl ⟨hreach.listed hunc, hreach⟩)
      · rintro hclear p (⟨-, hreach⟩ | ⟨-, ⟨v, hv⟩, hnone⟩)
        · exact hclear d hc hx p hreach
        · rw [heq, hv] at hnone
          cases hnone
  · obtain ⟨hbook, hmarket⟩ := step_other h hx
    refine iff_of_true ⟨b, hbook.trans hb, heq.trans hmarket.symm⟩ fun d hd hdx => ?_
    rw [hd] at hx
    exact absurd hdx hx

/-- A bid of the exchange's book that the engine's has not. -/
def Missing (x : String) (p : D) (s : Replica T D) : Prop :=
  s.Holds (fun b l => (∃ v, l .bid p = some v) ∧ p ∉ b.bids) x

omit [Zero D] in
theorem missing_iff {b : OrderBook D} (hb : s.engine.orderBooks x = some b) {p : D} :
    s.Missing x p ↔ (∃ v, s.market x .bid p = some v) ∧ b.view .bid p = none := by
  constructor
  · rintro ⟨b', hb', hv, hp⟩
    rw [hb] at hb'
    cases hb'
    exact ⟨hv, ExtTreeMap.getElem?_eq_none hp⟩
  · rintro ⟨hv, hnone⟩
    refine ⟨b, hb, hv, fun hp => ?_⟩
    obtain ⟨w, hw⟩ := mem_iff_exists.1 hp
    rw [OrderBook.view_bid, hw] at hnone
    cases hnone

theorem step_missing_iff {p : D} (hs : s.Following x) (h : step s c = some s') :
    s'.Missing x p ↔ (∃ d, c.event = .delta d ∧ d.symbol = x ∧ Reaches (s.market x) d p) ∨
      (c.event.symbol = x → ∃ d, c.event = .delta d ∧ p ∉ d.bidUpdates.map Prod.fst) ∧ s.Missing x p := by
  obtain ⟨⟨b, hb, hf⟩, hunc⟩ := hs
  by_cases hx : c.event.symbol = x
  · cases hc : c.event with
    | snapshot snapshot =>
      obtain ⟨b', hb', heq⟩ := step_snapshot h hc hx (by rw [hb]; simp)
      rw [missing_iff hb', heq]
      rw [hc] at hx
      refine iff_of_false ?_ ?_
      · rintro ⟨⟨v, hv⟩, hnone⟩
        rw [hv] at hnone
        cases hnone
      · rintro (⟨d, hd, -⟩ | ⟨hkeep, -⟩)
        · cases hd
        · obtain ⟨d, hd, -⟩ := hkeep hx
          cases hd
    | delta d =>
      obtain ⟨hh, hmarket, hbook⟩ := step_self h hx
      rw [hc] at hh hmarket hbook hx
      have hbook' : s'.engine.orderBooks x = some (MarketDataEngine.applyDelta b d) := by rw [hbook, hb]; rfl
      rw [missing_iff hbook', missing_iff hb, hmarket, hf.missing_iff hunc]
      constructor
      · rintro (⟨-, hreach⟩ | ⟨hlisted, hold⟩)
        · exact Or.inl ⟨d, rfl, hx, hreach⟩
        · exact Or.inr ⟨fun _ => ⟨d, rfl, hlisted⟩, hold⟩
      · rintro (⟨d', hd', -, hreach⟩ | ⟨hkeep, hold⟩)
        · cases hd'
          exact Or.inl ⟨hreach.listed hunc, hreach⟩
        · obtain ⟨d', hd', hlisted⟩ := hkeep hx
          cases hd'
          exact Or.inr ⟨hlisted, hold⟩
  · obtain ⟨hbook, hmarket⟩ := step_other h hx
    rw [missing_iff (hbook.trans hb), missing_iff hb, hmarket]
    constructor
    · exact fun hm => Or.inr ⟨fun he => absurd he hx, hm⟩
    · rintro (⟨d, hd, hdx, -⟩ | ⟨-, hm⟩)
      · rw [hd] at hx
        exact absurd hdx hx
      · exact hm

/-! ## Messages sent twice -/

omit [Zero D] in
theorem Following.mirroring_iff (hs : s.Following x) : s.Mirroring x ↔ ∀ p, ¬ s.Missing x p := by
  obtain ⟨⟨b, hb, hf⟩, -⟩ := hs
  simp only [missing_iff hb, ← hf.eq_iff]
  constructor
  · rintro ⟨b', hb', heq⟩
    rw [hb] at hb'
    cases hb'
    exact heq
  · exact fun heq => ⟨b, hb, heq⟩

/-- The last message of the symbol has been handled once: nothing but bids that it lists is missing. -/
structure Owing (x : String) (ev : MarketEvent D) (s : Replica T D) : Prop where
  sent : announced ev (s.market x) = s.market x
  listed : ∀ p, s.Missing x p → ∃ d, ev = .delta d ∧ p ∈ d.bidUpdates.map Prod.fst

theorem step_owing (hs : s.Following x) (hm : s.Mirroring x) (h : step s c = some s') (hx : c.event.symbol = x) :
    s'.Owing x c.event := by
  obtain ⟨-, hmarket, -⟩ := step_self h hx
  refine ⟨by rw [hmarket, announced_announced], fun p hp => ?_⟩
  rcases (step_missing_iff hs h).1 hp with ⟨d, hc, -, hreach⟩ | ⟨-, hold⟩
  · exact ⟨d, hc, hreach.listed hs.2⟩
  · exact absurd hold (hs.mirroring_iff.1 hm p)

/-- **The second time** nothing is lost: the bids of the message are below the asks that it has left. -/
theorem Owing.step_again (ho : s.Owing x c.event) (hs : s.Following x) (h : step s c = some s')
    (hx : c.event.symbol = x) : s'.Mirroring x := by
  refine (step_following hs h).mirroring_iff.2 fun p hp => ?_
  rcases (step_missing_iff hs h).1 hp with ⟨d, hc, -, ⟨v, hv⟩, q, w, hq, hle⟩ | ⟨hkeep, hold⟩
  · rw [← hc, ho.sent] at hv
    exact absurd (hs.2 .bid p v hv q w hq) hle.not_gt
  · obtain ⟨d, hc, hlisted⟩ := hkeep hx
    obtain ⟨d', hc', hmem⟩ := ho.listed p hold
    cases hc.symm.trans hc'
    exact hlisted hmem

/-- What is said of the symbol's two books only survives a message of another symbol. -/
theorem step_holds_other {R : OrderBook D → Ladder D D → Prop} (h : step s c = some s') (hx : c.event.symbol ≠ x) :
    s'.Holds R x ↔ s.Holds R x := by
  obtain ⟨hbook, hmarket⟩ := step_other h hx
  rw [Holds, Holds, hbook, hmarket]

/-- The messages of the symbol. -/
def messages (x : String) (cs : List (Call T D)) : List (MarketEvent D) :=
  (cs.map Call.event).filter fun ev => ev.symbol = x

omit [LinearOrder D] [Zero D] in
theorem messages_cons_self (hx : c.event.symbol = x) (cs : List (Call T D)) :
    messages x (c :: cs) = c.event :: messages x cs :=
  List.filter_cons_of_pos (decide_eq_true hx)

omit [LinearOrder D] [Zero D] in
theorem messages_cons_ne (hx : c.event.symbol ≠ x) (cs : List (Call T D)) : messages x (c :: cs) = messages x cs :=
  List.filter_cons_of_neg (by simpa using hx)

/-- Between two pairs the book mirrors the exchange's, within a pair it owes the message. -/
theorem run_pairs {cs : List (Call T D)} (h : Run step s cs s') (hs : s.Following x) :
    (∀ evs : List (MarketEvent D), messages x cs = evs.flatMap (fun ev => [ev, ev]) →
        s.Mirroring x → s'.Mirroring x) ∧
      ∀ (ev : MarketEvent D) (evs : List (MarketEvent D)), messages x cs = ev :: evs.flatMap (fun ev => [ev, ev]) →
        s.Owing x ev → s'.Mirroring x := by
  induction h with
  | nil => exact ⟨fun _ _ hm => hm, nofun⟩
  | @cons s s₁ s' c cs hst _ ih =>
    obtain ⟨ihpairs, ihowing⟩ := ih (step_following hs hst)
    by_cases hx : c.event.symbol = x
    · rw [messages_cons_self hx]
      constructor
      · rintro (_ | ⟨ev, evs⟩) hcs hm
        · cases hcs
        · obtain ⟨rfl, hrest⟩ := List.cons_eq_cons.1 hcs
          exact ihowing _ evs hrest (step_owing hs hm hst hx)
      · rintro ev evs hcs ho
        obtain ⟨rfl, hrest⟩ := List.cons_eq_cons.1 hcs
        exact ihpairs evs hrest (ho.step_again hs hst hx)
    · rw [messages_cons_ne hx]
      obtain ⟨-, hmarket⟩ := step_other hst hx
      constructor
      · exact fun evs hcs hm => ihpairs evs hcs ((step_holds_other hst hx).2 hm)
      · refine fun ev evs hcs ho => ihowing ev evs hcs ⟨?_, fun p hp => ?_⟩
        · rw [hmarket, ho.sent]
        · exact ho.listed p ((step_holds_other hst hx).1 hp)

section AfterSnapshot

variable {s₀ : Replica T D} {pre post : List (Call T D)} {snapshot : OrderBookSnapshot D}

/-- A snapshot of a known symbol on the way: right after it the book mirrors the exchange's. -/
theorem exists_synced (h : Run step s₀ (pre ++ c :: post) s) (hc : c.event = .snapshot snapshot)
    (hknown : s₀.engine.orderBooks snapshot.symbol ≠ none) (hunc : (s₀.market snapshot.symbol).Uncrossed) :
    ∃ s₁, Run step s₀ (pre ++ [c]) s₁ ∧ Run step s₁ post s ∧ s₁.Mirroring snapshot.symbol ∧
      s₁.Following snapshot.symbol := by
  obtain ⟨t, hpre, hrest⟩ := h.split
  cases hrest with
  | @cons _ s₁ _ _ _ hst hpost =>
    have hinv := hpre.invariant (I := fun t => t.engine.orderBooks snapshot.symbol ≠ none ∧
      (t.market snapshot.symbol).Uncrossed) ?_ ⟨hknown, hunc⟩
    · have hmirrors : s₁.Mirroring snapshot.symbol := step_snapshot hst hc (by rw [hc]; rfl) hinv.1
      obtain ⟨b, hb, heq⟩ := hmirrors
      exact ⟨s₁, hpre.append (.single hst), hpost, ⟨b, hb, heq⟩, ⟨b, hb, follows_of_eq heq⟩, step_uncrossed hinv.2 hst⟩
    · rintro t c t' ⟨hk, hu⟩ hst
      refine ⟨?_, step_uncrossed hu hst⟩
      rw [(step_eq hst).2.1]
      exact mt (MarketDataEngine.handle_orderBooks_eq_none _).1 hk

/-- **After a snapshot** of its symbol, and in every later state, the engine's book has the asks of the exchange's and
no bid that the exchange's has not; its best ask is the exchange's, and its best bid a level of the exchange. -/
theorem run_follows (h : Run step s₀ (pre ++ c :: post) s) (hc : c.event = .snapshot snapshot)
    (hknown : s₀.engine.orderBooks snapshot.symbol ≠ none) (hunc : (s₀.market snapshot.symbol).Uncrossed) :
    ∃ b, s.engine.getOrderBook snapshot.symbol = some b ∧
      (∀ q, b.asks[q]? = s.market snapshot.symbol .ask q) ∧
      (∀ p v, b.bids[p]? = some v → s.market snapshot.symbol .bid p = some v) ∧
      (∀ q w, s.market snapshot.symbol .ask q = some w → b.getBestAsk ≤ q) ∧
      (b.asks ≠ ∅ → s.market snapshot.symbol .ask b.getBestAsk = some (b.getAskVolume b.getBestAsk)) ∧
      (b.bids ≠ ∅ → s.market snapshot.symbol .bid b.getBestBid = some (b.getBidVolume b.getBestBid)) := by
  obtain ⟨s₁, -, hpost, -, hfollowing⟩ := exists_synced h hc hknown hunc
  have hs : s.Following snapshot.symbol := hpost.invariant (I := Following snapshot.symbol)
    (fun _ _ _ hs hst => step_following hs hst) hfollowing
  obtain ⟨⟨b, hb, hf⟩, -⟩ := hs
  refine ⟨b, hb, hf.asks, hf.bids, fun q w hq => ?_, fun hasks => ?_, fun hbids => ?_⟩
  · have hmem : q ∈ b.asks := mem_of_getElem? ((hf.asks q).trans hq)
    have hne : b.asks ≠ ∅ := by
      rintro he
      simp [he] at hmem
    exact (OrderBook.getBestAsk_spec hne).2 q hmem
  · obtain ⟨w, hw⟩ := mem_iff_exists.1 (OrderBook.getBestAsk_spec hasks).1
    rw [OrderBook.getAskVolume_eq hw]
    exact (hf.asks _).symm.trans hw
  · obtain ⟨v, hv⟩ := mem_iff_exists.1 (OrderBook.getBestBid_spec hbids).1
    rw [OrderBook.getBidVolume_eq hv]
    exact hf.bids _ _ hv

/-- **Mirroring**: from a snapshot of the symbol on, the engine's book is the exchange's in every state exactly when no
delta of the symbol leaves a bid at or above an ask of the exchange's book just before. -/
theorem run_mirrors_iff (h : Run step s₀ (pre ++ c :: post) s) (hc : c.event = .snapshot snapshot)
    (hknown : s₀.engine.orderBooks snapshot.symbol ≠ none) (hunc : (s₀.market snapshot.symbol).Uncrossed) :
    ∃ s₁, Run step s₀ (pre ++ [c]) s₁ ∧
      ((∀ mid rest t, post = mid ++ rest → Run step s₁ mid t → t.Mirroring snapshot.symbol) ↔
        Along step (Clear snapshot.symbol) s₁ post) := by
  obtain ⟨s₁, hs₁, hpost, hmirrors, hfollowing⟩ := exists_synced h hc hknown hunc
  refine ⟨s₁, hs₁, hpost.always_iff_along (J := Following snapshot.symbol) ?_ ?_ hfollowing hmirrors⟩
  · exact fun _ _ _ hs hst => step_following hs hst
  · exact fun _ _ _ hs hm hst => step_mirrors_iff hs hm hst

/-- **Lost bids**: from a snapshot of the symbol on, a bid of the exchange's book is missing from the engine's exactly
when some delta left it at or above an ask of the book just before, and no later message has been a snapshot or has
listed its price. -/
theorem run_missing_iff (h : Run step s₀ (pre ++ c :: post) s) (hc : c.event = .snapshot snapshot)
    (hknown : s₀.engine.orderBooks snapshot.symbol ≠ none) (hunc : (s₀.market snapshot.symbol).Uncrossed) (p : D) :
    ∃ s₁, Run step s₀ (pre ++ [c]) s₁ ∧
      (s.Missing snapshot.symbol p ↔ ∃ mid c' rest t t', post = mid ++ c' :: rest ∧ Run step s₁ mid t ∧
        step t c' = some t' ∧ (∃ d, c'.event = .delta d ∧ d.symbol = snapshot.symbol ∧
          Reaches (t.market snapshot.symbol) d p) ∧
        Along step (fun _ c => c.event.symbol = snapshot.symbol →
          ∃ d, c.event = .delta d ∧ p ∉ d.bidUpdates.map Prod.fst) t' rest) := by
  obtain ⟨s₁, hs₁, hpost, ⟨b, hb, heq⟩, hfollowing⟩ := exists_synced h hc hknown hunc
  refine ⟨s₁, hs₁, hpost.holds_iff_set (I := Following snapshot.symbol) ?_ ?_ hfollowing ?_⟩
  · exact fun _ _ _ hs hst => step_following hs hst
  · exact fun _ _ _ hs hst => step_missing_iff hs hst
  · rintro ⟨b', hb', ⟨v, hv⟩, hp⟩
    rw [hb] at hb'
    cases hb'
    rw [← heq] at hv
    exact hp (mem_of_getElem? hv)

/-- **Sent twice**: when from a snapshot of the symbol on each of its messages comes twice in a row, whatever comes for
other symbols in between, the engine's book is the exchange's after every pair. -/
theorem run_repeated (h : Run step s₀ (pre ++ c :: post) s) (hc : c.event = .snapshot snapshot)
    (hknown : s₀.engine.orderBooks snapshot.symbol ≠ none) (hunc : (s₀.market snapshot.symbol).Uncrossed)
    {events : List (MarketEvent D)}
    (hpairs : messages snapshot.symbol post = events.flatMap fun ev => [ev, ev]) :
    ∃ b, s.engine.getOrderBook snapshot.symbol = some b ∧ b.view = s.market snapshot.symbol := by
  obtain ⟨s₁, -, hpost, hmirrors, hfollowing⟩ := exists_synced h hc hknown hunc
  exact (run_pairs hpost hfollowing).1 events hpairs hmirrors

end AfterSnapshot

section Example

open MarketDataEngine (touchBook touchUp)

/-- An exchange with bids at 100 and asks at 101, and an engine that knows its symbol. -/
def beforeTouch : Replica ℕ ℤ := ⟨MarketDataEngine.constructed.initializeEngine ["BTC-USD"], fun _ => touchBook.view⟩

def noUpdate : MarketUpdate ℤ := ⟨"", 0, 0, 0, 0, 0, false⟩

def touchSnapshot : OrderBookSnapshot ℤ := ⟨"BTC-USD", [(100, 1)], [(101, 1)], 0⟩

def touchCall (ev : MarketEvent ℤ) : Call ℕ ℤ := ⟨0, noUpdate, ev⟩

/-- The exchange sends its snapshot, and then moves its touch up. -/
theorem touch_moves_up : ∃ s₁ s : Replica ℕ ℤ, Run step beforeTouch [touchCall (.snapshot touchSnapshot)] s₁ ∧
    s₁.market = beforeTouch.market ∧ step s₁ (touchCall (.delta touchUp)) = some s := by
  have hsnapshot : Honest touchBook.view (.snapshot touchSnapshot) := fun p v => ⟨getElem?_ofList, getElem?_ofList⟩
  obtain ⟨s₁, hs₁⟩ := step_of_honest (s := beforeTouch) (c := touchCall (.snapshot touchSnapshot)) hsnapshot
  obtain ⟨-, -, hmarket⟩ := step_eq hs₁
  have hkeep : s₁.market = beforeTouch.market := hmarket.trans (Function.update_eq_self ..)
  have hdelta : Honest (s₁.market "BTC-USD") (.delta touchUp) := by
    rw [hkeep]
    have hunc : (MarketDataEngine.plain touchBook touchUp).Uncrossed := by decide
    rw [OrderBook.uncrossed_iff, view_plain] at hunc
    exact hunc
  obtain ⟨s, hs⟩ := step_of_honest (s := s₁) (c := touchCall (.delta touchUp)) hdelta
  exact ⟨s₁, s, .single hs₁, hkeep, hs⟩

theorem touchUp_reaches : Reaches touchBook.view touchUp 101 := by
  refine ⟨⟨2, ?_⟩, 101, 1, by decide, le_rfl⟩
  rw [← view_plain]
  decide

theorem beforeTouch_known : beforeTouch.engine.orderBooks touchSnapshot.symbol ≠ none := by decide

theorem beforeTouch_uncrossed : (beforeTouch.market touchSnapshot.symbol).Uncrossed :=
  (OrderBook.uncrossed_iff touchBook).1 (by decide)

/-- The asks of the two books agree after the move. -/
theorem touchUp_follows : ∃ s : Replica ℕ ℤ, ∃ b,
    Run step beforeTouch [touchCall (.snapshot touchSnapshot), touchCall (.delta touchUp)] s ∧
      s.engine.getOrderBook "BTC-USD" = some b ∧ ∀ q, b.asks[q]? = s.market "BTC-USD" .ask q := by
  obtain ⟨s₁, s, hs₁, -, hs⟩ := touch_moves_up
  have hrun : Run step beforeTouch ([] ++ touchCall (.snapshot touchSnapshot) :: [touchCall (.delta touchUp)]) s :=
    hs₁.append (.single hs)
  obtain ⟨b, hb, hasks, -⟩ := run_follows hrun rfl beforeTouch_known beforeTouch_uncrossed
  exact ⟨s, b, hrun, hb, hasks⟩

/-- Some state on the way does not mirror the exchange. -/
theorem touchUp_not_mirrored : ∃ s₁ : Replica ℕ ℤ, Run step beforeTouch [touchCall (.snapshot touchSnapshot)] s₁ ∧
    ¬ ∀ mid rest t, [touchCall (.delta touchUp)] = mid ++ rest → Run step s₁ mid t → t.Mirroring "BTC-USD" := by
  obtain ⟨s₁, s, hs₁, hmarket, hs⟩ := touch_moves_up
  have hrun : Run step beforeTouch ([] ++ touchCall (.snapshot touchSnapshot) :: [touchCall (.delta touchUp)]) s :=
    hs₁.append (.single hs)
  obtain ⟨s₁', hs₁', hiff⟩ := run_mirrors_iff hrun rfl beforeTouch_known beforeTouch_uncrossed
  obtain rfl : s₁' = s₁ := hs₁'.functional hs₁
  refine ⟨s₁', hs₁, fun hall => ?_⟩
  refine hiff.1 hall [] _ [] s₁' rfl (.nil _) touchUp rfl rfl 101 ?_
  rw [hmarket]
  exact touchUp_reaches

/-- The bid at 101 is missing. -/
theorem touchUp_missing : ∃ s : Replica ℕ ℤ,
    Run step beforeTouch [touchCall (.snapshot touchSnapshot), touchCall (.delta touchUp)] s ∧
      s.Missing "BTC-USD" 101 := by
  obtain ⟨s₁, s, hs₁, hmarket, hs⟩ := touch_moves_up
  have hrun : Run step beforeTouch ([] ++ touchCall (.snapshot touchSnapshot) :: [touchCall (.delta touchUp)]) s :=
    hs₁.append (.single hs)
  obtain ⟨s₁', hs₁', hiff⟩ := run_missing_iff hrun rfl beforeTouch_known beforeTouch_uncrossed 101
  obtain rfl : s₁' = s₁ := hs₁'.functional hs₁
  refine ⟨s, hrun, hiff.2 ⟨[], _, [], s₁', s, rfl, .nil _, hs, ⟨touchUp, rfl, rfl, ?_⟩, .nil⟩⟩
  rw [hmarket]
  exact touchUp_reaches

/-- The second `touchUp` brings the bid at 101. -/
theorem touchUp_repeated : ∃ s : Replica ℕ ℤ, ∃ b,
    Run step beforeTouch
        [touchCall (.snapshot touchSnapshot), touchCall (.delta touchUp), touchCall (.delta touchUp)] s ∧
      s.engine.getOrderBook "BTC-USD" = some b ∧ b.view = s.market "BTC-USD" := by
  obtain ⟨s₁, s₂, hs₁, -, hs₂⟩ := touch_moves_up
  obtain ⟨hh, hmarket, -⟩ := step_self hs₂ (x := "BTC-USD") rfl
  have hagain : Honest (s₂.market "BTC-USD") (.delta touchUp) := by
    rw [hmarket]
    exact hh.again
  obtain ⟨s, hs⟩ := step_of_honest (s := s₂) (c := touchCall (.delta touchUp)) hagain
  have hrun : Run step beforeTouch ([] ++ touchCall (.snapshot touchSnapshot) ::
      [touchCall (.delta touchUp), touchCall (.delta touchUp)]) s :=
    hs₁.append (.cons hs₂ (.single hs))
  have hpairs : messages "BTC-USD" [touchCall (.delta touchUp), touchCall (.delta touchUp)] =
      [MarketEvent.delta touchUp].flatMap fun ev => [ev, ev] := rfl
  obtain ⟨b, hb, hview⟩ := run_repeated hrun rfl beforeTouch_known beforeTouch_uncrossed hpairs
  exact ⟨s, b, hrun, hb, hview⟩

end Example

end Replica

end CryptoHft
