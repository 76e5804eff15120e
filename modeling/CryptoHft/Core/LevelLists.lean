import CryptoHft.Core.Delta
import CryptoHft.Core.OrderBookHistory
import CryptoHft.Core.Snapshot

/-!
# Level lists: their order and their route

The levels of a message reach a book one by one, under the guards, or as a whole.

* When each side's list names each price once, the order of the lists changes nothing (`handleOrderBookDelta_perm`).
* Lists of non-zero sizes whose bids are all below their asks make the same book of an empty one as a delta as they
  make of any book as a snapshot (`handleOrderBookDelta_eq_snapshot`).
-/

namespace CryptoHft

open Std OrderedMap

namespace MarketDataEngine

variable {T D : Type} [LinearOrder D] [Zero D]

/-! ## Reordered deltas -/

theorem applyDelta_perm (b : OrderBook D) (delta : OrderBookDelta D) {bidUpdates askUpdates : List (D × D)}
    (hbids : (delta.bidUpdates.map Prod.fst).Nodup) (hasks : (delta.askUpdates.map Prod.fst).Nodup)
    (hb : delta.bidUpdates.Perm bidUpdates) (ha : delta.askUpdates.Perm askUpdates) :
    applyDelta b { delta with bidUpdates, askUpdates } = applyDelta b delta := by
  have hbid : bidUpdates.foldl applyBid b = delta.bidUpdates.foldl applyBid b := by
    rw [foldl_applyBid, foldl_applyBid, updateAllIf_perm hb hbids]
  rw [applyDelta, applyDelta, hbid, foldl_applyAsk, foldl_applyAsk, updateAllIf_perm ha hasks]

/-- **The order of a delta does not matter** when it names each price of a side once: reordered, it leaves the same
engine, with the same book and the same update queued. -/
theorem handleOrderBookDelta_perm (thread : T) (e : MarketDataEngine T D) (delta : OrderBookDelta D)
    (bidUpdates askUpdates : List (D × D)) (hbids : (delta.bidUpdates.map Prod.fst).Nodup)
    (hasks : (delta.askUpdates.map Prod.fst).Nodup) (hb : delta.bidUpdates.Perm bidUpdates)
    (ha : delta.askUpdates.Perm askUpdates) :
    handleOrderBookDelta thread e { delta with bidUpdates, askUpdates } = handleOrderBookDelta thread e delta := by
  unfold handleOrderBookDelta
  simp only [applyDelta_perm _ delta hbids hasks hb ha]
  rfl

/-- The touch moves down in the other order of the bids. -/
theorem touchDown_perm :
    handleOrderBookDelta 0 touchEngine { touchDown with bidUpdates := [(99, 1), (100, 0)] } =
      handleOrderBookDelta 0 touchEngine touchDown :=
  handleOrderBookDelta_perm 0 touchEngine touchDown [(99, 1), (100, 0)] touchDown.askUpdates (by decide) (by decide)
    (.swap ..) (.refl _)

/-! ## Snapshots and deltas -/

/-- The book with these levels, the last size of each price. -/
def ofLevels (bids asks : List (D × D)) : OrderBook D := ⟨ExtTreeMap.ofList bids greater, ExtTreeMap.ofList asks compare⟩

/-- A delta that only stores, and does not cross itself, fills an empty book without a rejection. -/
theorem applyDelta_empty {delta : OrderBookDelta D} (hbids : ∀ l ∈ delta.bidUpdates, l.2 ≠ 0)
    (hasks : ∀ l ∈ delta.askUpdates, l.2 ≠ 0) (h : ∀ p ∈ delta.bidUpdates, ∀ q ∈ delta.askUpdates, p.1 < q.1) :
    applyDelta .empty delta = ofLevels delta.bidUpdates delta.askUpdates := by
  have hplain : plain .empty delta = ofLevels delta.bidUpdates delta.askUpdates :=
    OrderBook.ext_sides (updateAll_empty hbids) (updateAll_empty hasks)
  have hunc : (plain .empty delta).Uncrossed := by
    rw [hplain]
    intro p hp q hq
    obtain ⟨x, hx, rfl⟩ := List.mem_map.1 (mem_ofList.1 hp)
    obtain ⟨y, hy, rfl⟩ := List.mem_map.1 (mem_ofList.1 hq)
    exact h x hx y hy
  rw [← hplain]
  refine (applyDelta_eq_plain_iff OrderBook.empty_uncrossed hunc).2 fun p _ q hq => ?_
  simp [OrderBook.empty] at hq

omit [Zero D] in
/-- A snapshot installs its levels, whatever the book was. -/
theorem installSnapshot_eq (b : OrderBook D) (snapshot : OrderBookSnapshot D) :
    installSnapshot b snapshot = ofLevels snapshot.bids snapshot.asks := by
  unfold installSnapshot OrderBook.setSnapshot ofLevels
  rw [toMap_eq_ofList, toMap_eq_ofList, recmp_ofList]

/-- **Two routes to one book**: handled as a delta of an empty book or as a snapshot of any book, the levels leave the
same book. -/
theorem handleOrderBookDelta_eq_snapshot (symbol : String) (bids asks : List (D × D)) (hbids : ∀ l ∈ bids, l.2 ≠ 0)
    (hasks : ∀ l ∈ asks, l.2 ≠ 0) (h : ∀ p ∈ bids, ∀ q ∈ asks, p.1 < q.1) (thread : T) (e : MarketDataEngine T D)
    (timestamp : Int) (hempty : e.getOrderBook symbol = some .empty) :
    ∃ b, (handleOrderBookDelta thread e ⟨symbol, bids, asks, timestamp⟩).getOrderBook symbol = some b ∧
      ∀ (uninit : MarketUpdate D) (thread' : T) (e' : MarketDataEngine T D) (timestamp' : Int),
        e'.getOrderBook symbol ≠ none →
        (handleOrderBookSnapshot uninit thread' e' ⟨symbol, bids, asks, timestamp'⟩).getOrderBook symbol = some b := by
  refine ⟨ofLevels bids asks, ?_, ?_⟩
  · let delta : OrderBookDelta D := ⟨symbol, bids, asks, timestamp⟩
    have hknown : e.orderBooks delta.symbol = some .empty := hempty
    rw [handleOrderBookDelta_known hknown, applyDelta_empty hbids hasks h]
    exact Function.update_self ..
  · intro uninit thread' e' timestamp' hknown
    let snapshot : OrderBookSnapshot D := ⟨symbol, bids, asks, timestamp'⟩
    obtain ⟨b, hb⟩ : ∃ b, e'.orderBooks snapshot.symbol = some b := Option.ne_none_iff_exists'.1 hknown
    rw [handleOrderBookSnapshot_known hb, installSnapshot_eq]
    exact Function.update_self ..

/-- Repeated prices and unsorted lists: the last size of each price is left on either route. -/
theorem repeated_prices_eq_snapshot :
    (handleOrderBookDelta 0 (constructed.initializeEngine ["BTC-USD"])
        ⟨"BTC-USD", [(99, 1), (100, 2), (99, 3)], [(102, 1), (101, 1)], 0⟩).getOrderBook "BTC-USD" =
      (handleOrderBookSnapshot ⟨"", 0, 0, 0, 0, 0, false⟩ 0 touchEngine
        ⟨"BTC-USD", [(99, 1), (100, 2), (99, 3)], [(102, 1), (101, 1)], 0⟩).getOrderBook "BTC-USD" := by
  obtain ⟨b, hdelta, hsnapshot⟩ := handleOrderBookDelta_eq_snapshot "BTC-USD" [((99 : ℤ), 1), (100, 2), (99, 3)]
    [(102, 1), (101, 1)] (by decide) (by decide) (by decide) 0 (constructed.initializeEngine ["BTC-USD"]) 0 (by decide)
  rw [hdelta, hsnapshot _ _ _ _ (by decide)]

end MarketDataEngine

end CryptoHft
