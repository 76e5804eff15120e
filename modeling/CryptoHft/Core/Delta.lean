import CryptoHft.Core.MarketDataEngine

/-!
# Deltas: the guarded loops and the plain result

The delta handler passes each entry through `updateBid` or `updateAsk`, which drop what would cross the other side as
it stands at that moment: during the bid loop the asks of the old book, during the ask loop the bids just written.

* The bid loop is the plain application of the bid updates filtered by the old asks (`foldl_applyBid`), the ask loop
  that of the ask updates filtered by the new bids (`foldl_applyAsk`).
* On an uncrossed book, when the plain result is uncrossed too, the ask loop drops nothing (`asks_applyDelta`), and
  the bid loop drops nothing exactly when every bid of the plain result is below every ask of the old book
  (`applyDelta_eq_plain_iff`).
-/

namespace CryptoHft

open Std OrderedMap

namespace OrderBook

variable {D : Type} [LinearOrder D]

instance (b : OrderBook D) : Decidable b.Uncrossed :=
  decidable_of_iff (∀ e ∈ b.bids.toList, ∀ f ∈ b.asks.toList, e.1 < f.1) <| by
    constructor
    · intro h p hp q hq
      obtain ⟨v, hv⟩ := mem_iff_exists.1 hp
      obtain ⟨w, hw⟩ := mem_iff_exists.1 hq
      exact h (p, v) (ExtTreeMap.mem_toList_iff_getElem?_eq_some.2 hv) (q, w)
        (ExtTreeMap.mem_toList_iff_getElem?_eq_some.2 hw)
    · intro h e he f hf
      exact h e.1 (mem_of_getElem? (ExtTreeMap.mem_toList_iff_getElem?_eq_some.1 he)) f.1
        (mem_of_getElem? (ExtTreeMap.mem_toList_iff_getElem?_eq_some.1 hf))

end OrderBook

namespace MarketDataEngine

variable {T D : Type} [LinearOrder D] [Zero D]

/-- The delta applied plainly: each entry sets the size of its price on its side, and size 0 erases it. -/
def plain (b : OrderBook D) (delta : OrderBookDelta D) : OrderBook D :=
  ⟨updateAll b.bids delta.bidUpdates, updateAll b.asks delta.askUpdates⟩

/-! ## The two loops -/

/-- The bid loop filters the updates by the asks, which it does not change. -/
theorem foldl_applyBid (us : List (D × D)) (b : OrderBook D) :
    us.foldl applyBid b = ⟨updateAllIf (fun p => b.acceptsBid p = true) b.bids us, b.asks⟩ := by
  induction us generalizing b with
  | nil => rfl
  | cons u us ih =>
    have hstep : applyBid b u = ⟨updateIf (fun p => b.acceptsBid p = true) b.bids u, b.asks⟩ := by
      unfold applyBid updateIf
      split
      · rfl
      · unfold OrderBook.updateBid
        split <;> rfl
    rw [List.foldl_cons, ih, hstep]
    rfl

theorem foldl_applyAsk (us : List (D × D)) (b : OrderBook D) :
    us.foldl applyAsk b = ⟨b.bids, updateAllIf (fun q => b.acceptsAsk q = true) b.asks us⟩ := by
  induction us generalizing b with
  | nil => rfl
  | cons u us ih =>
    have hstep : applyAsk b u = ⟨b.bids, updateIf (fun q => b.acceptsAsk q = true) b.asks u⟩ := by
      unfold applyAsk updateIf
      split
      · rfl
      · unfold OrderBook.updateAsk
        split <;> rfl
    rw [List.foldl_cons, ih, hstep]
    rfl

theorem bids_applyDelta (b : OrderBook D) (delta : OrderBookDelta D) :
    (applyDelta b delta).bids = updateAllIf (fun p => b.acceptsBid p = true) b.bids delta.bidUpdates := by
  rw [applyDelta, foldl_applyAsk, foldl_applyBid]

/-! ## When nothing is lost -/

variable {b : OrderBook D} {delta : OrderBookDelta D}

/-- The bid loop leaves bids of the plain result only, each below the old asks. -/
theorem of_mem_bids_applyDelta (hb : b.Uncrossed) {p : D} (hp : p ∈ (applyDelta b delta).bids) :
    (∀ q ∈ b.asks, p < q) ∧ p ∈ (plain b delta).bids := by
  have hold : ∀ p ∈ b.bids, b.acceptsBid p = true := fun p hp => (b.acceptsBid_iff p).2 (hb p hp)
  rw [bids_applyDelta] at hp
  exact ⟨(b.acceptsBid_iff p).1 (guard_of_mem_updateAllIf hold hp), mem_updateAll_of_mem_updateAllIf hold hp⟩

/-- The ask loop drops nothing: the bids it compares with are old bids or bids of the plain result. -/
theorem asks_applyDelta (hb : b.Uncrossed) (hplain : (plain b delta).Uncrossed) :
    (applyDelta b delta).asks = (plain b delta).asks := by
  have hbids : (delta.bidUpdates.foldl applyBid b).bids = (applyDelta b delta).bids := by
    rw [bids_applyDelta, foldl_applyBid]
  have hasks : (delta.bidUpdates.foldl applyBid b).asks = b.asks := by rw [foldl_applyBid]
  rw [applyDelta, foldl_applyAsk, hasks]
  refine (updateAllIf_eq_iff (fun q hq => ?_) delta.askUpdates).2 fun q hq => ?_
  · rw [OrderBook.acceptsAsk_iff, hbids]
    exact fun p hp => (of_mem_bids_applyDelta hb hp).1 q hq
  · rw [OrderBook.acceptsAsk_iff, hbids]
    exact fun p hp => hplain p (of_mem_bids_applyDelta hb hp).2 q hq

/-- **The handler applies the delta plainly** exactly when it moves no bid to or past an ask of the old book. -/
theorem applyDelta_eq_plain_iff (hb : b.Uncrossed) (hplain : (plain b delta).Uncrossed) :
    applyDelta b delta = plain b delta ↔ ∀ p ∈ (plain b delta).bids, ∀ q ∈ b.asks, p < q := by
  have hold : ∀ p ∈ b.bids, b.acceptsBid p = true := fun p hp => (b.acceptsBid_iff p).2 (hb p hp)
  have hiff := updateAllIf_eq_iff hold delta.bidUpdates
  simp only [OrderBook.acceptsBid_iff] at hiff
  rw [← show (plain b delta).bids = updateAll b.bids delta.bidUpdates from rfl] at hiff
  rw [← hiff]
  constructor
  · intro h
    rw [← bids_applyDelta, h]
  · intro h
    refine OrderBook.ext_sides ?_ (asks_applyDelta hb hplain)
    rw [bids_applyDelta]
    simpa only [OrderBook.acceptsBid_iff] using h

/-- The book that a delta leaves in the engine is the plain result exactly when no bid of the plain result reaches an
ask of the old book. -/
theorem handleOrderBookDelta_exact_iff (thread : T) (e : MarketDataEngine T D) (delta : OrderBookDelta D)
    (b : OrderBook D) (hknown : e.orderBooks delta.symbol = some b) (hb : b.Uncrossed)
    (hplain : (plain b delta).Uncrossed) :
    (handleOrderBookDelta thread e delta).orderBooks delta.symbol = some (plain b delta) ↔
      ∀ p ∈ (plain b delta).bids, ∀ q ∈ b.asks, p < q := by
  rw [handleOrderBookDelta_known hknown, ← applyDelta_eq_plain_iff hb hplain]
  simp

/-! ## Moving the touch -/

section Touch

/-- An engine with bids at 100 and asks at 101. -/
def touchEngine : MarketDataEngine ℕ ℤ :=
  handleOrderBookSnapshot ⟨"", 0, 0, 0, 0, 0, false⟩ 0 (constructed.initializeEngine ["BTC-USD"])
    ⟨"BTC-USD", [(100, 1)], [(101, 1)], 0⟩

def touchBook : OrderBook ℤ := ⟨ExtTreeMap.ofList [(100, 1)] greater, ExtTreeMap.ofList [(101, 1)] compare⟩

/-- The touch moves down: the ask at 100 takes the place of the bid. -/
def touchDown : OrderBookDelta ℤ := ⟨"BTC-USD", [(100, 0), (99, 1)], [(100, 2)], 1⟩

/-- The touch moves up: the bid at 101 takes the place of the ask. -/
def touchUp : OrderBookDelta ℤ := ⟨"BTC-USD", [(101, 2)], [(101, 0), (102, 1)], 1⟩

theorem touchDown_exact :
    (handleOrderBookDelta 0 touchEngine touchDown).orderBooks "BTC-USD" = some (plain touchBook touchDown) :=
  (handleOrderBookDelta_exact_iff 0 touchEngine touchDown touchBook (by decide) (by decide) (by decide)).2 <| by
    have hbids : (plain touchBook touchDown).bids = ExtTreeMap.ofList [(99, 1)] greater := by decide
    rw [hbids]
    intro p hp q hq
    simp only [touchBook, mem_ofList, List.map_cons, List.map_nil, List.mem_singleton] at hp hq
    omega

/-- Moving the touch up loses the new bid, although both books are uncrossed. -/
theorem touchUp_loses_bid :
    touchEngine.orderBooks "BTC-USD" = some touchBook ∧ touchBook.Uncrossed ∧ (plain touchBook touchUp).Uncrossed ∧
      (plain touchBook touchUp).bids[(101 : ℤ)]? = some 2 ∧
      (handleOrderBookDelta 0 touchEngine touchUp).orderBooks "BTC-USD" ≠ some (plain touchBook touchUp) := by
  decide

end Touch

end MarketDataEngine

end CryptoHft
