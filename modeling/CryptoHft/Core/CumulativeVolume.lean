import CryptoHft.Core.OrderBook
import Mathlib.Algebra.Order.BigOperators.Group.Finset

/-!
# Cumulative volumes

The loops of the cumulative getters stop at the first level on the far side of the price. Each map iterates from the
touch outwards, so no level after that one is nearer, and the loops add up exactly the levels strictly nearer to the
touch than the price (`getCumulativeBidVolume_eq_sum`, `getCumulativeAskVolume_eq_sum`, together `cumulative_sound`).
-/

namespace CryptoHft

open Std OrderedMap

namespace OrderBook

/-! ## The loop -/

section Loop

variable {D : Type} [AddMonoid D]

/-- On levels after which it never changes its mind, the loop adds up those that do not stop it. -/
theorem cumulate_eq {stop : D → Bool} {levels : List (D × D)}
    (h : levels.Pairwise fun l l' => stop l.1 = true → stop l'.1 = true) (volume : D) :
    cumulate stop levels volume = volume + ((levels.filter fun l => !stop l.1).map Prod.snd).sum := by
  induction levels generalizing volume with
  | nil => simp [cumulate]
  | cons level levels ih =>
    obtain ⟨p, s⟩ := level
    obtain ⟨hstop, hlevels⟩ := List.pairwise_cons.1 h
    rw [cumulate]
    by_cases hp : stop p = true
    · have hnone : levels.filter (fun l => !stop l.1) = [] := by
        rw [List.filter_eq_nil_iff]
        intro l hl
        simp [hstop l hl hp]
      simp [hp, hnone]
    · simp [hp, ih hlevels, add_assoc]

end Loop

/-! ## Sums over the levels of a side -/

section Sums

variable {D : Type} [LinearOrder D] {cmp : D → D → Ordering} [TransCmp cmp] [LawfulEqCmp cmp]

/-- The prices of a side. -/
def prices (m : ExtTreeMap D D cmp) : Finset D := m.keys.toFinset

@[simp] theorem mem_prices {m : ExtTreeMap D D cmp} {p : D} : p ∈ prices m ↔ p ∈ m := by
  simp [prices]

variable [AddCommMonoid D]

/-- The loop adds up the sizes at the prices of the side that do not stop it. -/
theorem cumulate_toList {stop : D → Bool} {m : ExtTreeMap D D cmp} {size : D → D}
    (hstop : ∀ p q, cmp p q = .lt → stop p = true → stop q = true)
    (hsize : ∀ p s : D, m[p]? = some s → size p = s) :
    cumulate stop m.toList 0 = ∑ p ∈ prices m with !stop p, size p := by
  have hord : m.toList.Pairwise fun l l' => stop l.1 = true → stop l'.1 = true :=
    (ExtTreeMap.ordered_keys_toList (t := m)).imp fun hlt => hstop _ _ hlt
  have hnodup : m.keys.Nodup := (ExtTreeMap.distinct_keys (t := m)).imp fun hne heq => hne (cmp_eq_iff.2 heq)
  have hsnd : ∀ l ∈ m.toList.filter (fun l => !stop l.1), l.2 = size l.1 := by
    intro l hl
    have hget := ExtTreeMap.mem_toList_iff_getElem?_eq_some.1 (List.mem_of_mem_filter hl)
    exact (hsize l.1 l.2 hget).symm
  calc cumulate stop m.toList 0
      = ((m.toList.filter fun l => !stop l.1).map Prod.snd).sum := by rw [cumulate_eq hord, zero_add]
    _ = ((m.toList.filter fun l => !stop l.1).map fun l => size l.1).sum := by rw [List.map_congr_left hsnd]
    _ = ((m.keys.filter fun p => !stop p).map size).sum := by
        rw [← ExtTreeMap.map_fst_toList_eq_keys, List.filter_map, List.map_map]
        rfl
    _ = ∑ p ∈ prices m with !stop p, size p := by
        rw [prices, ← List.toFinset_filter, List.sum_toFinset size (hnodup.filter _)]

end Sums

/-! ## The getters -/

section Getters

variable {D : Type} [LinearOrder D] [AddCommMonoid D]

theorem getCumulativeBidVolume_eq_sum (b : OrderBook D) (price : D) :
    b.getCumulativeBidVolume price = ∑ p ∈ prices b.bids with price < p, b.getBidVolume p := by
  have hstop : ∀ p q, greater p q = .lt → decide (p ≤ price) = true → decide (q ≤ price) = true := by
    intro p q hlt hp
    have hqp : q ≤ p := greater_ne_gt.1 (by simp [hlt])
    exact decide_eq_true (hqp.trans (of_decide_eq_true hp))
  rw [getCumulativeBidVolume, cumulate_toList hstop fun p s hs => getBidVolume_eq hs]
  simp

theorem getCumulativeAskVolume_eq_sum (b : OrderBook D) (price : D) :
    b.getCumulativeAskVolume price = ∑ q ∈ prices b.asks with q < price, b.getAskVolume q := by
  have hstop : ∀ p q, compare p q = .lt → decide (p ≥ price) = true → decide (q ≥ price) = true := by
    intro p q hlt hp
    have hpq : p ≤ q := compare_ne_gt.1 (by simp [hlt])
    have hprice : price ≤ p := of_decide_eq_true hp
    exact decide_eq_true (hprice.trans hpq)
  rw [getCumulativeAskVolume, cumulate_toList hstop fun q s hs => getAskVolume_eq hs]
  simp

/-- No size in the book is negative. -/
def SizesNonneg (b : OrderBook D) : Prop :=
  (∀ p s : D, b.bids[p]? = some s → 0 ≤ s) ∧ ∀ q s : D, b.asks[q]? = some s → 0 ≤ s

variable [IsOrderedAddMonoid D]

theorem getCumulativeBidVolume_antitone {b : OrderBook D} (h : b.SizesNonneg) : Antitone b.getCumulativeBidVolume := by
  intro price price' hle
  rw [getCumulativeBidVolume_eq_sum, getCumulativeBidVolume_eq_sum]
  refine Finset.sum_le_sum_of_subset_of_nonneg ?_ fun p hp _ => ?_
  · exact Finset.monotone_filter_right _ fun p _ hp => hle.trans_lt hp
  · obtain ⟨s, hs⟩ := mem_iff_exists.1 (mem_prices.1 (Finset.mem_filter.1 hp).1)
    rw [getBidVolume_eq hs]
    exact h.1 p s hs

theorem getCumulativeAskVolume_monotone {b : OrderBook D} (h : b.SizesNonneg) : Monotone b.getCumulativeAskVolume := by
  intro price price' hle
  rw [getCumulativeAskVolume_eq_sum, getCumulativeAskVolume_eq_sum]
  refine Finset.sum_le_sum_of_subset_of_nonneg ?_ fun q hq _ => ?_
  · exact Finset.monotone_filter_right _ fun q _ hq => hq.trans_le hle
  · obtain ⟨s, hs⟩ := mem_iff_exists.1 (mem_prices.1 (Finset.mem_filter.1 hq).1)
    rw [getAskVolume_eq hs]
    exact h.2 q s hs

/-- **The cumulative getters** add up the levels strictly nearer to the touch than the price, each once; where no size
is negative, the bids' figure never grows with the price and the asks' never falls. -/
theorem cumulative_sound (b : OrderBook D) :
    (∀ price, b.getCumulativeBidVolume price = ∑ p ∈ prices b.bids with price < p, b.getBidVolume p) ∧
      (∀ price, b.getCumulativeAskVolume price = ∑ q ∈ prices b.asks with q < price, b.getAskVolume q) ∧
      (b.SizesNonneg → Antitone b.getCumulativeBidVolume ∧ Monotone b.getCumulativeAskVolume) := by
  refine ⟨getCumulativeBidVolume_eq_sum b, getCumulativeAskVolume_eq_sum b, fun h => ?_⟩
  exact ⟨getCumulativeBidVolume_antitone h, getCumulativeAskVolume_monotone h⟩

end Getters

section Example

def threeBids : OrderBook ℤ := ⟨ExtTreeMap.ofList [(50000, 1), (49900, 2), (49800, 3)] greater, ∅⟩

theorem threeBids_cumulative :
    ∑ p ∈ prices threeBids.bids with 49850 < p, threeBids.getBidVolume p = 3 ∧
      threeBids.getCumulativeBidVolume 49900 ≤ threeBids.getCumulativeBidVolume 49850 := by
  obtain ⟨hbids, -, hmono⟩ := cumulative_sound threeBids
  have hvolume : threeBids.getCumulativeBidVolume 49850 = 3 := by decide
  have hsizes : threeBids.SizesNonneg := by
    refine ⟨fun p s hs => ?_, fun q s hs => by simp [threeBids] at hs⟩
    have hmem := mem_of_getElem?_ofList hs
    simp only [List.mem_cons, Prod.mk.injEq, List.not_mem_nil, or_false] at hmem
    omega
  exact ⟨(hbids 49850).symm.trans hvolume, (hmono hsizes).1 (by decide)⟩

/-- Between, on and beyond the levels. -/
example : [50001, 50000, 49950, 49900, 0].map threeBids.getCumulativeBidVolume = [0, 0, 1, 1, 6] := by
  decide

end Example

end OrderBook

end CryptoHft
