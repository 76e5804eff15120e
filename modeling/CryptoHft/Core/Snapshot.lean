import CryptoHft.Core.MarketDataEngine

/-!
# Snapshots: the published update and the installed book

The snapshot handler publishes from its local maps, which both ascend, while the book it installs keeps its bids
descending; and it assigns the price fields of an uninitialised `MarketUpdate` only on a side that has levels.

* On the ask side the two agree when there are asks (`top_asks`); on the bid side the handler publishes the lowest bid
  (`bid_snapshotUpdate`).
* The published update is the top of the installed book, whatever the uninitialised fields held, exactly when the
  snapshot has asks and has bids of one price only (`handleOrderBookSnapshot_top_iff`).
-/

namespace CryptoHft

open Std OrderedMap

namespace MarketDataEngine

variable {T D : Type} [LinearOrder D]

/-! ## The local maps -/

theorem toMap_eq_ofList (levels : List (D × D)) : toMap levels = ExtTreeMap.ofList levels compare :=
  ExtTreeMap.ofList_eq_foldl.symm

theorem mem_toMap {levels : List (D × D)} {p : D} : p ∈ toMap levels ↔ p ∈ levels.map Prod.fst := by
  rw [toMap_eq_ofList, mem_ofList]

theorem toMap_eq_empty {levels : List (D × D)} : toMap levels = ∅ ↔ levels = [] := by
  constructor
  · intro h
    cases levels with
    | nil => rfl
    | cons level levels =>
      have hm : level.1 ∈ toMap (level :: levels) := mem_toMap.2 (by simp)
      rw [h] at hm
      simp at hm
  · rintro rfl; rfl

theorem first_toMap_ne_none {levels : List (D × D)} (h : levels ≠ []) : ∃ begin, first (toMap levels) = some begin := by
  cases hf : first (toMap levels) with
  | none => exact absurd (toMap_eq_empty.1 (first_eq_none.1 hf)) h
  | some begin => exact ⟨begin, rfl⟩

/-! ## The published fields -/

variable (uninit : MarketUpdate D) (snapshot : OrderBookSnapshot D) (bids asks : ExtTreeMap D D compare)

theorem bid_snapshotUpdate {begin : D × D} (h : first bids = some begin) :
    (snapshotUpdate uninit snapshot bids asks).bidPrice = begin.1 ∧
      (snapshotUpdate uninit snapshot bids asks).bidSize = begin.2 := by
  unfold snapshotUpdate
  rw [h]
  cases first asks <;> exact ⟨rfl, rfl⟩

theorem ask_snapshotUpdate {begin : D × D} (h : first asks = some begin) :
    (snapshotUpdate uninit snapshot bids asks).askPrice = begin.1 ∧
      (snapshotUpdate uninit snapshot bids asks).askSize = begin.2 := by
  unfold snapshotUpdate
  rw [h]
  exact ⟨rfl, rfl⟩

/-- Without bids the bid price is whatever the memory held. -/
theorem bidPrice_uninit (h : bids = ∅) : (snapshotUpdate uninit snapshot bids asks).bidPrice = uninit.bidPrice := by
  unfold snapshotUpdate
  rw [h, first_empty]
  cases first asks <;> rfl

theorem askPrice_uninit (h : asks = ∅) : (snapshotUpdate uninit snapshot bids asks).askPrice = uninit.askPrice := by
  unfold snapshotUpdate
  rw [h, first_empty]
  cases first bids <;> rfl

/-! ## The top of the installed book -/

section Top

variable [Zero D]

/-- The update is the top of the book, as the delta handler publishes it: the getters' best prices, and the sizes the
book stores there; price 0 and size 0 on an empty side. -/
structure TopOfBook (b : OrderBook D) (u : MarketUpdate D) : Prop where
  bidPrice : u.bidPrice = b.getBestBid
  bidSize : u.bidSize = b.getBidVolume b.getBestBid
  askPrice : u.askPrice = b.getBestAsk
  askSize : u.askSize = b.getAskVolume b.getBestAsk

theorem deltaUpdate_top (delta : OrderBookDelta D) (b : OrderBook D) : TopOfBook b (deltaUpdate delta b) :=
  ⟨rfl, rfl, rfl, rfl⟩

variable {snapshot} {b : OrderBook D}

/-- With asks, the ask half of the published update is the top of the installed book. -/
theorem top_asks (h : snapshot.asks ≠ []) :
    (snapshotUpdate uninit snapshot bids (toMap snapshot.asks)).askPrice = (installSnapshot b snapshot).getBestAsk ∧
      (snapshotUpdate uninit snapshot bids (toMap snapshot.asks)).askSize =
        (installSnapshot b snapshot).getAskVolume (installSnapshot b snapshot).getBestAsk := by
  obtain ⟨begin, hf⟩ := first_toMap_ne_none h
  obtain ⟨hp, hs⟩ := ask_snapshotUpdate uninit snapshot bids (toMap snapshot.asks) hf
  have hbest : (installSnapshot b snapshot).getBestAsk = begin.1 := by
    rw [OrderBook.getBestAsk, installSnapshot, OrderBook.setSnapshot, hf]
  rw [hp, hs, hbest]
  exact ⟨rfl, (OrderBook.getAskVolume_eq (getElem?_of_first hf)).symm⟩

/-- With bids of one price, the bid half of the published update is the top of the installed book. -/
theorem top_bids (h : snapshot.bids ≠ []) (hone : ∀ x ∈ snapshot.bids, ∀ y ∈ snapshot.bids, x.1 = y.1) :
    (snapshotUpdate uninit snapshot (toMap snapshot.bids) asks).bidPrice =
        (installSnapshot b snapshot).getBestBid ∧
      (snapshotUpdate uninit snapshot (toMap snapshot.bids) asks).bidSize =
        (installSnapshot b snapshot).getBidVolume (installSnapshot b snapshot).getBestBid := by
  obtain ⟨begin, hf⟩ := first_toMap_ne_none h
  obtain ⟨hp, hs⟩ := bid_snapshotUpdate uninit snapshot (toMap snapshot.bids) asks hf
  have hstored : (installSnapshot b snapshot).bids[begin.1]? = some begin.2 :=
    (getElem?_recmp _ _).trans (getElem?_of_first hf)
  have hmax : ∀ p ∈ (installSnapshot b snapshot).bids, p ≤ begin.1 := by
    intro p hmem
    obtain ⟨x, hx, rfl⟩ := List.mem_map.1 (mem_toMap.1 ((mem_recmp _ p).1 hmem))
    obtain ⟨y, hy, hxy⟩ := List.mem_map.1 (mem_toMap.1 (mem_of_first hf))
    rw [hone x hx y hy, hxy]
  have hbest : (installSnapshot b snapshot).getBestBid = begin.1 :=
    OrderBook.getBestBid_eq (mem_of_getElem? hstored) hmax
  rw [hp, hs, hbest]
  exact ⟨rfl, (OrderBook.getBidVolume_eq hstored).symm⟩

/-- When the lowest bid is the best one, all bids have one price. -/
theorem one_price_of_top {u : MarketUpdate D} (h : snapshot.bids ≠ [])
    (hu : u = snapshotUpdate uninit snapshot (toMap snapshot.bids) asks)
    (htop : u.bidPrice = (installSnapshot b snapshot).getBestBid) :
    ∀ x ∈ snapshot.bids, ∀ y ∈ snapshot.bids, x.1 = y.1 := by
  obtain ⟨begin, hf⟩ := first_toMap_ne_none h
  have hlow : u.bidPrice = begin.1 := by rw [hu]; exact (bid_snapshotUpdate uninit snapshot _ asks hf).1
  have hne : (installSnapshot b snapshot).bids ≠ ∅ := by
    intro he
    have hm : begin.1 ∈ (installSnapshot b snapshot).bids := (mem_recmp _ _).2 (mem_of_first hf)
    rw [he] at hm
    simp at hm
  -- every bid lies between the lowest one and the best one, and these are the same price
  have heq : ∀ x ∈ snapshot.bids, x.1 = begin.1 := by
    intro x hx
    have hm : x.1 ∈ toMap snapshot.bids := mem_toMap.2 (List.mem_map_of_mem hx)
    have hle : begin.1 ≤ x.1 := compare_ne_gt.1 (first_le hf hm)
    have hge : x.1 ≤ (installSnapshot b snapshot).getBestBid :=
      (OrderBook.getBestBid_spec hne).2 x.1 ((mem_recmp _ _).2 hm)
    rw [← htop, hlow] at hge
    exact hge.antisymm hle
  intro x hx y hy
  rw [heq x hx, heq y hy]

/-- **The published update is the top of the installed book** exactly when the snapshot has asks, and bids of one price
only. -/
theorem handleOrderBookSnapshot_top_iff [Nontrivial D] (thread : T) (e : MarketDataEngine T D)
    (snapshot : OrderBookSnapshot D) (hknown : e.orderBooks snapshot.symbol ≠ none) :
    (∀ uninit, ∃ b u, (handleOrderBookSnapshot uninit thread e snapshot).orderBooks snapshot.symbol = some b ∧
        (handleOrderBookSnapshot uninit thread e snapshot).updateQueue = e.updateQueue ++ [(thread, u)] ∧
        TopOfBook b u) ↔
      snapshot.bids ≠ [] ∧ (∀ x ∈ snapshot.bids, ∀ y ∈ snapshot.bids, x.1 = y.1) ∧ snapshot.asks ≠ [] := by
  obtain ⟨b₀, hb₀⟩ := Option.ne_none_iff_exists'.1 hknown
  have hread : ∀ uninit, (∃ b u,
      (handleOrderBookSnapshot uninit thread e snapshot).orderBooks snapshot.symbol = some b ∧
        (handleOrderBookSnapshot uninit thread e snapshot).updateQueue = e.updateQueue ++ [(thread, u)] ∧
        TopOfBook b u) ↔
      TopOfBook (installSnapshot b₀ snapshot)
        (snapshotUpdate uninit snapshot (toMap snapshot.bids) (toMap snapshot.asks)) := by
    intro uninit
    rw [handleOrderBookSnapshot_known hb₀]
    constructor
    · rintro ⟨b, u, hb, hu, htop⟩
      simp only [Function.update_self, Option.some.injEq] at hb
      simp only [List.append_cancel_left_eq, List.cons.injEq, Prod.mk.injEq, true_and, and_true] at hu
      rw [hb, hu]
      exact htop
    · intro htop
      exact ⟨_, _, by simp, rfl, htop⟩
  simp only [hread]
  constructor
  · intro h
    -- an empty side would publish the uninitialised field, here a price other than 0
    obtain ⟨x, hx⟩ := exists_ne (0 : D)
    have htop := h ⟨"", x, 0, x, 0, 0, false⟩
    have hbids : snapshot.bids ≠ [] := by
      intro he
      have hempty := toMap_eq_empty.2 he
      have hp := htop.bidPrice
      rw [bidPrice_uninit _ _ _ _ hempty, OrderBook.getBestBid_empty] at hp
      · exact hx hp
      · exact ExtTreeMap.ext_getElem? fun p => (getElem?_recmp _ p).trans (by rw [hempty]; simp)
    have hasks : snapshot.asks ≠ [] := by
      intro he
      have hempty := toMap_eq_empty.2 he
      have hp := htop.askPrice
      rw [askPrice_uninit _ _ _ _ hempty, OrderBook.getBestAsk_empty _ hempty] at hp
      exact hx hp
    exact ⟨hbids, one_price_of_top _ _ hbids rfl htop.bidPrice, hasks⟩
  · rintro ⟨hbids, hone, hasks⟩ uninit
    obtain ⟨hbp, hbs⟩ := top_bids (b := b₀) uninit (toMap snapshot.asks) hbids hone
    obtain ⟨hap, has⟩ := top_asks (b := b₀) uninit (toMap snapshot.bids) hasks
    exact ⟨hbp, hbs, hap, has⟩

/-- A bid that is given twice, and asks of several prices. -/
def repeatedBid : OrderBookSnapshot ℤ :=
  ⟨"BTC-USD", [(50000, 1), (50000, 3)], [(50200, 2), (50100, 1), (50150, 4)], 0⟩

theorem repeated_bid_top : ∃ b u,
    (handleOrderBookSnapshot ⟨"", 7, 7, 7, 7, 7, false⟩ 0
        ((constructed : MarketDataEngine ℕ ℤ).initializeEngine ["BTC-USD"]) repeatedBid).orderBooks "BTC-USD" = some b ∧
      (handleOrderBookSnapshot ⟨"", 7, 7, 7, 7, 7, false⟩ 0
        ((constructed : MarketDataEngine ℕ ℤ).initializeEngine ["BTC-USD"]) repeatedBid).updateQueue = [] ++ [(0, u)] ∧
      TopOfBook b u :=
  (handleOrderBookSnapshot_top_iff 0 ((constructed : MarketDataEngine ℕ ℤ).initializeEngine ["BTC-USD"]) repeatedBid
    (by decide)).2 (by decide) _

/-- A snapshot with bids at 49900 and 50000 is published with the lower one as its best bid. -/
theorem two_bids_not_top :
    let e := handleOrderBookSnapshot ⟨"", 0, 0, 0, 0, 0, false⟩ 0
      ((constructed : MarketDataEngine ℕ ℤ).initializeEngine ["BTC-USD"])
      ⟨"BTC-USD", [(50000, 1), (49900, 2)], [(50100, 1)], 0⟩
    e.updateQueue.map (fun entry => (entry.2.bidPrice, entry.2.bidSize)) = [(49900, 2)] ∧
      (e.orderBooks "BTC-USD").map (fun b => (b.getBestBid, b.getBidVolume b.getBestBid)) = some (50000, 1) := by
  decide

end Top

end MarketDataEngine

end CryptoHft
