import CryptoHft.Core.OrderBookHistory
import CryptoHft.Core.OrderBookReads
import Mathlib.Algebra.Order.Field.Basic

/-!
# Spread and mid price

The best price of an empty side is 0. With bids and no asks the best ask is then below the best bid, so the spread is
negative and the mid price below the best bid; every other reachable book has its mid price between its best prices
(`run_spread_iff`).
-/

namespace CryptoHft

open Std OrderedMap

namespace OrderBook

/-! ## Positive prices -/

section Positive

variable {D : Type} [LinearOrder D] [Zero D]

/-- Every price that the operation names is positive. -/
def Op.Positive : Op D → Prop
  | .updateBid price _ => 0 < price
  | .updateAsk price _ => 0 < price
  | .removeBid price => 0 < price
  | .removeAsk price => 0 < price
  | .setSnapshot newBids newAsks => (∀ p ∈ newBids, 0 < p) ∧ ∀ q ∈ newAsks, 0 < q
  | .clear => True

theorem positive_of_writes {b : OrderBook D} {side : Side} {p s : D} {op : Op D} (hop : op.Positive)
    (h : b.Writes side p s op) : 0 < p := by
  cases op with
  | updateBid =>
    cases side with
    | bid => exact h.1 ▸ hop
    | ask => exact h.elim
  | updateAsk =>
    cases side with
    | bid => exact h.elim
    | ask => exact h.1 ▸ hop
  | setSnapshot newBids newAsks =>
    cases side with
    | bid => exact hop.1 p (mem_of_getElem? h)
    | ask => exact hop.2 p (mem_of_getElem? h)
  | removeBid | removeAsk | clear => cases side <;> exact h.elim

/-- Every level of a reachable book was written, so its price is positive. -/
theorem run_positive {ops : List (Op D)} (h : ∀ op ∈ ops, op.Positive) (side : Side) {p s : D}
    (hp : (empty.run ops).view side p = some s) : 0 < p := by
  obtain ⟨pre, op, post, rfl, hw, -⟩ := (level_iff_lastWritten ops side p s).1 hp
  exact positive_of_writes (h op (by simp)) hw

end Positive

/-! ## The best prices -/

variable {D : Type} [Field D] [LinearOrder D]

/-- The spread is not negative and the mid price lies between the best prices. -/
def SpreadSound (b : OrderBook D) : Prop :=
  0 ≤ b.getSpread ∧ b.getBestBid ≤ b.getMidPrice ∧ b.getMidPrice ≤ b.getBestAsk

variable [IsStrictOrderedRing D]

theorem spreadSound_iff (b : OrderBook D) : b.SpreadSound ↔ b.getBestBid ≤ b.getBestAsk := by
  unfold SpreadSound getSpread getMidPrice
  rw [sub_nonneg]
  constructor
  · intro h
    exact h.1
  · intro h
    refine ⟨h, ?_, ?_⟩
    · rw [le_div_iff₀ two_pos, mul_two]
      exact add_le_add_right h _
    · rw [div_le_iff₀ two_pos, mul_two]
      exact add_le_add_left h _

/-- **The best prices of a reachable book are in order** unless it has bids and no asks. -/
theorem run_spread_iff (ops : List (Op D)) (hpos : ∀ op ∈ ops, op.Positive) (hops : SnapshotsUncrossed ops) :
    (empty.run ops).SpreadSound ↔ (empty.run ops).bids = ∅ ∨ (empty.run ops).asks ≠ ∅ := by
  have hbid : ∀ p ∈ (empty.run ops).bids, 0 < p := by
    intro p hp
    obtain ⟨v, hv⟩ := mem_iff_exists.1 hp
    exact run_positive hpos .bid hv
  have hask : ∀ q ∈ (empty.run ops).asks, 0 < q := by
    intro q hq
    obtain ⟨v, hv⟩ := mem_iff_exists.1 hq
    exact run_positive hpos .ask hv
  have hunc : (empty.run ops).Uncrossed := run_uncrossed empty_uncrossed hops
  rw [spreadSound_iff]
  by_cases hbids : (empty.run ops).bids = ∅
  · rw [getBestBid_empty _ hbids]
    refine iff_of_true ?_ (.inl hbids)
    by_cases hasks : (empty.run ops).asks = ∅
    · rw [getBestAsk_empty _ hasks]
    · exact (hask _ (getBestAsk_spec hasks).1).le
  · have hbest := (getBestBid_spec hbids).1
    by_cases hasks : (empty.run ops).asks = ∅
    · -- the missing best ask is read as 0, below every bid
      rw [getBestAsk_empty _ hasks]
      refine iff_of_false (hbid _ hbest).not_ge ?_
      rintro (h | h)
      · exact hbids h
      · exact h hasks
    · exact iff_of_true (hunc _ hbest _ (getBestAsk_spec hasks).1).le (.inr hasks)

/-- A two-sided book that lost its best ask and has another. -/
theorem two_sided_spread :
    ((empty : OrderBook ℚ).run [.updateBid 100 1, .updateAsk 101 1, .updateAsk 102 1, .removeAsk 101]).SpreadSound := by
  refine (run_spread_iff _ ?_ ?_).2 (.inr (by decide))
  · simp [Op.Positive]
  · simp [SnapshotsUncrossed]

/-- The last ask is removed: the spread is negative, and the mid price below the best bid. -/
theorem one_sided_spread :
    (∀ op ∈ [oneLevelSnapshot 50000 50100, .removeAsk 50100], op.Positive) ∧
      SnapshotsUncrossed [oneLevelSnapshot 50000 50100, .removeAsk 50100] ∧
      ((empty : OrderBook ℚ).run [oneLevelSnapshot 50000 50100, .removeAsk 50100]).getSpread = -50000 ∧
      ((empty : OrderBook ℚ).run [oneLevelSnapshot 50000 50100, .removeAsk 50100]).getMidPrice = 25000 ∧
      ¬ ((empty : OrderBook ℚ).run [oneLevelSnapshot 50000 50100, .removeAsk 50100]).SpreadSound := by
  refine ⟨?_, ?_, by decide +kernel, by decide +kernel, fun h => absurd h.1 (by decide +kernel)⟩
  · simp [Op.Positive, oneLevelSnapshot]
  · rintro newBids newAsks hm p hp q hq
    simp only [oneLevelSnapshot, List.mem_cons, Op.setSnapshot.injEq, reduceCtorEq, List.not_mem_nil, or_false] at hm
    obtain ⟨rfl, rfl⟩ := hm
    simp only [mem_ofList, List.map_cons, List.map_nil, List.mem_singleton] at hp hq
    rw [hp, hq]
    decide +kernel

end OrderBook

end CryptoHft
