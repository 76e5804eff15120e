import Mathlib.Data.List.Nodup
import Mathlib.Order.Lattice
import Mathlib.Tactic.Ring

/-!
# Ordered maps with a comparator

What a map that iterates in the order of its comparator offers beyond lookup:

* the entry its iteration begins with (`first`), which is the extreme key of the comparator (`first_eq_some`);
* the copy of one map into a map with another comparator (`recmp`), which changes no lookup (`getElem?_recmp`);
* lists of absolute updates, value `0` erasing the key (`updateAll`), and the same list filtered key by key by a guard
  (`updateAllIf`): on a map whose keys all pass the guard the filter is invisible exactly when every key of the plain
  result passes it (`updateAllIf_eq_iff`).
-/

namespace OrderedMap

open Std

variable {K V : Type}

/-! ## The two comparators -/

section Comparators

variable [LinearOrder K]

/-- The order's own comparator, of a map that iterates from the least key up. -/
instance instTransCmpCompare : TransCmp (compare : K → K → Ordering) := inferInstance

/-- The comparator of a map that iterates from the greatest key down. -/
def greater (a b : K) : Ordering := compare b a

instance : TransCmp (greater (K := K)) :=
  have h : TransCmp (fun a b : K => compare b a) := TransCmp.opposite
  h

instance : LawfulEqCmp (greater (K := K)) where
  compare_self := by
    intro a
    exact Std.compare_eq_iff_eq.2 rfl
  eq_of_compare h := (Std.compare_eq_iff_eq.1 h).symm

theorem compare_ne_gt {a b : K} : compare a b ≠ .gt ↔ a ≤ b := compare_le_iff_le

theorem greater_ne_gt {a b : K} : greater a b ≠ .gt ↔ b ≤ a := compare_le_iff_le

end Comparators

/-! ## Lookup and membership -/

section Lookup

variable {cmp : K → K → Ordering}

theorem cmp_eq_iff [LawfulEqCmp cmp] {a b : K} : cmp a b = .eq ↔ a = b :=
  ⟨LawfulEqCmp.eq_of_compare, fun h => h ▸ ReflCmp.compare_self⟩

variable [TransCmp cmp]

theorem mem_iff_exists {m : ExtTreeMap K V cmp} {k : K} : k ∈ m ↔ ∃ v, m[k]? = some v := by
  rw [ExtTreeMap.mem_iff_isSome_getElem?, Option.isSome_iff_exists]

theorem mem_of_getElem? {m : ExtTreeMap K V cmp} {k : K} {v : V} (h : m[k]? = some v) : k ∈ m :=
  mem_iff_exists.2 ⟨v, h⟩

variable [LawfulEqCmp cmp]

theorem eq_of_ne_gt {a b : K} (h₁ : cmp a b ≠ .gt) (h₂ : cmp b a ≠ .gt) : a = b := by
  cases hc : cmp a b with
  | eq => exact LawfulEqCmp.eq_of_compare hc
  | lt => exact absurd (OrientedCmp.gt_of_lt hc) h₂
  | gt => exact absurd hc h₁

theorem getElem?_insert_ne (m : ExtTreeMap K V cmp) {k k' : K} (v : V) (h : k ≠ k') :
    (m.insert k v)[k']? = m[k']? := by
  rw [ExtTreeMap.getElem?_insert, if_neg (fun e => h (cmp_eq_iff.1 e))]

theorem getElem?_erase_ne (m : ExtTreeMap K V cmp) {k k' : K} (h : k ≠ k') : (m.erase k)[k']? = m[k']? := by
  rw [ExtTreeMap.getElem?_erase, if_neg (fun e => h (cmp_eq_iff.1 e))]

/-- The list ends its entries of key `k` with the value `v`. -/
def LastEntry (l : List (K × V)) (k : K) (v : V) : Prop :=
  ∃ pre post, l = pre ++ (k, v) :: post ∧ k ∉ post.map Prod.fst

theorem LastEntry.mem {l : List (K × V)} {k : K} {v : V} (h : LastEntry l k v) : (k, v) ∈ l := by
  obtain ⟨pre, post, rfl, -⟩ := h
  simp

theorem lastEntry_cons {e : K × V} {l : List (K × V)} {k : K} {v : V} :
    LastEntry (e :: l) k v ↔ LastEntry l k v ∨ (k ∉ l.map Prod.fst ∧ e = (k, v)) := by
  constructor
  · rintro ⟨pre, post, heq, hk⟩
    cases pre with
    | nil => cases heq; exact Or.inr ⟨hk, rfl⟩
    | cons e' pre => cases heq; exact Or.inl ⟨pre, post, rfl, hk⟩
  · rintro (⟨pre, post, rfl, hk⟩ | ⟨hk, rfl⟩)
    · exact ⟨e :: pre, post, rfl, hk⟩
    · exact ⟨[], l, rfl, hk⟩

theorem exists_lastEntry {l : List (K × V)} {k : K} : (∃ v, LastEntry l k v) ↔ k ∈ l.map Prod.fst := by
  induction l with
  | nil => simp [LastEntry]
  | cons e l ih =>
    simp only [lastEntry_cons, exists_or, ih, List.map_cons, List.mem_cons]
    by_cases hk : k ∈ l.map Prod.fst
    · exact iff_of_true (Or.inl hk) (Or.inr hk)
    · obtain ⟨k', v'⟩ := e
      simp [hk, eq_comm]

/-- Where the entries come from a list of sources, the last entry of a key comes from the last source for the key. -/
theorem lastEntry_filterMap {α : Type} {f : α → Option (K × V)} {xs : List α} {k : K} {v : V} :
    LastEntry (xs.filterMap f) k v ↔
      ∃ pre x post, xs = pre ++ x :: post ∧ f x = some (k, v) ∧ ∀ y ∈ post, ∀ v', f y ≠ some (k, v') := by
  have hkey : ∀ post : List α, k ∉ (post.filterMap f).map Prod.fst ↔ ∀ y ∈ post, ∀ v', f y ≠ some (k, v') := by
    intro post
    simp only [List.mem_map, List.mem_filterMap]
    constructor
    · intro h y hy v' he
      exact h ⟨(k, v'), ⟨y, hy, he⟩, rfl⟩
    · rintro h ⟨⟨k', v'⟩, ⟨y, hy, he⟩, rfl⟩
      exact h y hy v' he
  constructor
  · rintro ⟨pre, post, heq, hk⟩
    obtain ⟨xs₁, xs₂, rfl, -, h₂⟩ := List.filterMap_eq_append_iff.1 heq
    obtain ⟨mid, x, rest, rfl, -, hx, rfl⟩ := List.filterMap_eq_cons_iff.1 h₂
    exact ⟨xs₁ ++ mid, x, rest, (List.append_assoc ..).symm, hx, (hkey rest).1 hk⟩
  · rintro ⟨pre, x, post, rfl, hx, hpost⟩
    refine ⟨pre.filterMap f, post.filterMap f, ?_, (hkey post).2 hpost⟩
    rw [List.filterMap_append, List.filterMap_cons_some hx]

/-- A list of entries written into a map stores the last value of each key, over what the map had. -/
theorem getElem?_foldl_insert {k : K} {v : V} (l : List (K × V)) (m : ExtTreeMap K V cmp) :
    (l.foldl (fun m e => m.insert e.1 e.2) m)[k]? = some v ↔
      LastEntry l k v ∨ (k ∉ l.map Prod.fst ∧ m[k]? = some v) := by
  induction l generalizing m with
  | nil => simp [LastEntry]
  | cons e l ih =>
    obtain ⟨k', v'⟩ := e
    rw [List.foldl_cons, ih, lastEntry_cons]
    by_cases hk : k' = k
    · subst hk
      rw [ExtTreeMap.getElem?_insert_self]
      simp
    · rw [getElem?_insert_ne _ _ hk]
      simp [hk, Ne.symm hk]

/-- A map built from a list stores the last value of each key of the list. -/
theorem getElem?_ofList {l : List (K × V)} {k : K} {v : V} :
    (ExtTreeMap.ofList l cmp)[k]? = some v ↔ LastEntry l k v := by
  rw [ExtTreeMap.ofList_eq_foldl, getElem?_foldl_insert]
  simp

theorem mem_of_getElem?_ofList {l : List (K × V)} {k : K} {v : V} (h : (ExtTreeMap.ofList l cmp)[k]? = some v) :
    (k, v) ∈ l := (getElem?_ofList.1 h).mem

/-- A map built from a list stores exactly the keys of the list. -/
theorem mem_ofList {l : List (K × V)} {k : K} : k ∈ ExtTreeMap.ofList l cmp ↔ k ∈ l.map Prod.fst := by
  rw [mem_iff_exists, ← exists_lastEntry]
  simp only [getElem?_ofList]

end Lookup

/-! ## The first entry -/

section First

variable {cmp : K → K → Ordering} [TransCmp cmp]

/-- The entry iteration begins with. -/
def first (m : ExtTreeMap K V cmp) : Option (K × V) := m.toList.head?

theorem first_eq_none {m : ExtTreeMap K V cmp} : first m = none ↔ m = ∅ := by
  simp [first]

@[simp] theorem first_empty : first (∅ : ExtTreeMap K V cmp) = none := first_eq_none.2 rfl

variable [LawfulEqCmp cmp]

/-- Iteration begins with a stored entry. -/
theorem getElem?_of_first {m : ExtTreeMap K V cmp} {k : K} {v : V} (h : first m = some (k, v)) : m[k]? = some v :=
  ExtTreeMap.mem_toList_iff_getElem?_eq_some.1 (List.mem_of_head? h)

theorem mem_of_first {m : ExtTreeMap K V cmp} {e : K × V} (h : first m = some e) : e.1 ∈ m :=
  mem_of_getElem? (getElem?_of_first h)

/-- No key comes before the one iteration begins with. -/
theorem first_le {m : ExtTreeMap K V cmp} {e : K × V} (h : first m = some e) {k : K} (hk : k ∈ m) :
    cmp e.1 k ≠ .gt := by
  obtain ⟨v, hv⟩ := mem_iff_exists.1 hk
  have hmem := ExtTreeMap.mem_toList_iff_getElem?_eq_some.2 hv
  have hord := ExtTreeMap.ordered_keys_toList (t := m)
  obtain ⟨rest, hrest⟩ := List.head?_eq_some_iff.1 h
  rw [hrest] at hmem hord
  rcases List.mem_cons.1 hmem with rfl | hin
  · have hself : cmp k k = .eq := ReflCmp.compare_self
    simp [hself]
  · simp [(List.pairwise_cons.1 hord).1 _ hin]

/-- The first entry is the stored entry that no key comes before. -/
theorem first_eq_some {m : ExtTreeMap K V cmp} {k : K} {v : V} :
    first m = some (k, v) ↔ m[k]? = some v ∧ ∀ k' ∈ m, cmp k k' ≠ .gt := by
  refine ⟨fun h => ⟨getElem?_of_first h, fun k' hk => first_le h hk⟩, fun ⟨hv, hle⟩ => ?_⟩
  cases hf : first m with
  | none => rw [first_eq_none.1 hf] at hv; simp at hv
  | some e =>
    obtain ⟨k₀, v₀⟩ := e
    have hk : k = k₀ := eq_of_ne_gt (hle k₀ (mem_of_first hf)) (first_le hf (mem_of_getElem? hv))
    subst hk
    rw [getElem?_of_first hf] at hv
    cases hv; rfl

/-- A test of every key against the first one: with a transitive test it is a test against all keys. -/
theorem forall_mem_iff_first {m : ExtTreeMap K V cmp} {p : K → Prop}
    (hp : ∀ {a b}, cmp a b ≠ .gt → p a → p b) : (∀ k ∈ m, p k) ↔ ∀ e, first m = some e → p e.1 := by
  refine ⟨fun h e he => h _ (mem_of_first he), fun h k hk => ?_⟩
  cases hf : first m with
  | none => rw [first_eq_none.1 hf] at hk; simp at hk
  | some e => exact hp (first_le hf hk) (h e hf)

end First

/-! ## Copies under another comparator -/

section Recmp

variable {cmp cmp' : K → K → Ordering} [TransCmp cmp] [LawfulEqCmp cmp] [TransCmp cmp'] [LawfulEqCmp cmp']

/-- The entries of `m`, in a map with another comparator. -/
def recmp (cmp' : K → K → Ordering) [TransCmp cmp'] (m : ExtTreeMap K V cmp) : ExtTreeMap K V cmp' :=
  ExtTreeMap.ofList m.toList cmp'

@[simp] theorem getElem?_recmp (m : ExtTreeMap K V cmp) (k : K) : (recmp cmp' m)[k]? = m[k]? := by
  have hdist : m.toList.Pairwise (fun a b => ¬ cmp' a.1 b.1 = .eq) :=
    (ExtTreeMap.distinct_keys_toList (t := m)).imp fun hne heq => hne (cmp_eq_iff.2 (cmp_eq_iff.1 heq))
  apply Option.ext
  intro v
  constructor
  · intro h
    exact ExtTreeMap.mem_toList_iff_getElem?_eq_some.1 (mem_of_getElem?_ofList h)
  · intro h
    exact ExtTreeMap.getElem?_ofList_of_mem ReflCmp.compare_self hdist
      (ExtTreeMap.mem_toList_iff_getElem?_eq_some.2 h)

@[simp] theorem mem_recmp (m : ExtTreeMap K V cmp) (k : K) : k ∈ recmp cmp' m ↔ k ∈ m := by
  simp [mem_iff_exists]

end Recmp

/-! ## Lists of absolute updates -/

section Updates

variable {cmp : K → K → Ordering} [TransCmp cmp] [Zero V] [DecidableEq V]

/-- One absolute update: the value `0` erases the key, any other value is stored. -/
def update (m : ExtTreeMap K V cmp) (u : K × V) : ExtTreeMap K V cmp :=
  if u.2 = 0 then m.erase u.1 else m.insert u.1 u.2

def updateAll (m : ExtTreeMap K V cmp) (us : List (K × V)) : ExtTreeMap K V cmp := us.foldl update m

/-- One absolute update that stores a value only at keys passing the guard. -/
def updateIf (g : K → Prop) [DecidablePred g] (m : ExtTreeMap K V cmp) (u : K × V) : ExtTreeMap K V cmp :=
  if u.2 = 0 then m.erase u.1 else if g u.1 then m.insert u.1 u.2 else m

def updateAllIf (g : K → Prop) [DecidablePred g] (m : ExtTreeMap K V cmp) (us : List (K × V)) :
    ExtTreeMap K V cmp := us.foldl (updateIf g) m

variable [LawfulEqCmp cmp] {g : K → Prop} [DecidablePred g]

theorem getElem?_update_self (m : ExtTreeMap K V cmp) (u : K × V) :
    (update m u)[u.1]? = if u.2 = 0 then none else some u.2 := by
  unfold update
  split <;> simp

/-- An update touches its own key only. -/
theorem getElem?_update_ne (m : ExtTreeMap K V cmp) {u : K × V} {k : K} (h : u.1 ≠ k) : (update m u)[k]? = m[k]? := by
  unfold update
  split
  · exact getElem?_erase_ne _ h
  · exact getElem?_insert_ne _ _ h

theorem getElem?_updateIf_self (m : ExtTreeMap K V cmp) (u : K × V) :
    (updateIf g m u)[u.1]? = if u.2 = 0 then none else if g u.1 then some u.2 else m[u.1]? := by
  unfold updateIf
  split
  · simp
  · split <;> simp

theorem getElem?_updateIf_ne (m : ExtTreeMap K V cmp) {u : K × V} {k : K} (h : u.1 ≠ k) :
    (updateIf g m u)[k]? = m[k]? := by
  unfold updateIf
  split
  · exact getElem?_erase_ne _ h
  · split
    · exact getElem?_insert_ne _ _ h
    · rfl

/-- At a key that passes the guard, one guarded update acts as the plain one. -/
theorem getElem?_updateIf_of_pos {m m' : ExtTreeMap K V cmp} {k : K} (hk : g k) (h : m[k]? = m'[k]?) (u : K × V) :
    (updateIf g m u)[k]? = (update m' u)[k]? := by
  by_cases he : u.1 = k
  · subst he
    rw [getElem?_updateIf_self, getElem?_update_self, if_pos hk]
  · rw [getElem?_updateIf_ne _ he, getElem?_update_ne _ he, h]

/-- At a key that fails the guard, one guarded update stores nothing. -/
theorem getElem?_updateIf_of_neg {m : ExtTreeMap K V cmp} {k : K} (hk : ¬ g k) (h : m[k]? = none) (u : K × V) :
    (updateIf g m u)[k]? = none := by
  by_cases he : u.1 = k
  · subst he
    rw [getElem?_updateIf_self, if_neg hk, h, ite_self]
  · rw [getElem?_updateIf_ne _ he, h]

theorem getElem?_updateAllIf_of_pos {k : K} (hk : g k) : ∀ (us : List (K × V)) {m m' : ExtTreeMap K V cmp},
    m[k]? = m'[k]? → (updateAllIf g m us)[k]? = (updateAll m' us)[k]?
  | [], _, _, h => h
  | u :: us, _, _, h => getElem?_updateAllIf_of_pos hk us (getElem?_updateIf_of_pos hk h u)

theorem getElem?_updateAllIf_of_neg {k : K} (hk : ¬ g k) : ∀ (us : List (K × V)) {m : ExtTreeMap K V cmp},
    m[k]? = none → (updateAllIf g m us)[k]? = none
  | [], _, h => h
  | u :: us, _, h => getElem?_updateAllIf_of_neg hk us (getElem?_updateIf_of_neg hk h u)

/-- A guarded list of updates stores only keys that pass the guard. -/
theorem guard_of_mem_updateAllIf {m : ExtTreeMap K V cmp} (hm : ∀ k ∈ m, g k) {us : List (K × V)} {k : K}
    (hk : k ∈ updateAllIf g m us) : g k := by
  by_contra hg
  have hnone : m[k]? = none := ExtTreeMap.getElem?_eq_none fun hin => hg (hm k hin)
  obtain ⟨v, hv⟩ := mem_iff_exists.1 hk
  rw [getElem?_updateAllIf_of_neg hg us hnone] at hv
  cases hv

/-- A guarded list stores a subset of what the plain list stores. -/
theorem mem_updateAll_of_mem_updateAllIf {m : ExtTreeMap K V cmp} (hm : ∀ k ∈ m, g k) {us : List (K × V)} {k : K}
    (hk : k ∈ updateAllIf g m us) : k ∈ updateAll m us := by
  have hg := guard_of_mem_updateAllIf hm hk
  obtain ⟨v, hv⟩ := mem_iff_exists.1 hk
  rw [getElem?_updateAllIf_of_pos hg us rfl] at hv
  exact mem_of_getElem? hv

/-- **The guard is invisible** exactly when every key of the plain result passes it. -/
theorem updateAllIf_eq_iff {m : ExtTreeMap K V cmp} (hm : ∀ k ∈ m, g k) (us : List (K × V)) :
    updateAllIf g m us = updateAll m us ↔ ∀ k ∈ updateAll m us, g k := by
  constructor
  · intro h k hk
    rw [← h] at hk
    exact guard_of_mem_updateAllIf hm hk
  · intro h
    apply ExtTreeMap.ext_getElem?
    intro k
    by_cases hk : g k
    · exact getElem?_updateAllIf_of_pos hk us rfl
    · have hnone : m[k]? = none := ExtTreeMap.getElem?_eq_none fun hin => hk (hm k hin)
      rw [getElem?_updateAllIf_of_neg hk us hnone, ExtTreeMap.getElem?_eq_none fun hin => hk (h k hin)]

/-! ## The updates on lookups -/

/-- The list of absolute updates, on lookups. -/
def change [DecidableEq K] (us : List (K × V)) (c : K → Option V) : K → Option V :=
  us.foldl (fun c u => Function.update c u.1 (if u.2 = 0 then none else some u.2)) c

theorem getElem?_updateAll [DecidableEq K] (us : List (K × V)) (m : ExtTreeMap K V cmp) (k : K) :
    (updateAll m us)[k]? = change us (fun k => m[k]?) k := by
  induction us generalizing m with
  | nil => rfl
  | cons u us ih =>
    have hstep : (fun k => (update m u)[k]?) =
        Function.update (fun k => m[k]?) u.1 (if u.2 = 0 then none else some u.2) := by
      funext k
      by_cases hk : u.1 = k
      · subst hk
        rw [getElem?_update_self, Function.update_self]
      · rw [getElem?_update_ne m hk, Function.update_of_ne (Ne.symm hk)]
    rw [updateAll, List.foldl_cons, change, List.foldl_cons, ← hstep]
    exact ih (update m u)

/-- A key that is not listed keeps what is stored there. -/
theorem change_of_not_mem [DecidableEq K] {us : List (K × V)} {k : K} (hk : k ∉ us.map Prod.fst)
    (c : K → Option V) : change us c k = c k := by
  induction us generalizing c with
  | nil => rfl
  | cons u us ih =>
    rw [List.map_cons, List.mem_cons, not_or] at hk
    rw [change, List.foldl_cons]
    exact (ih hk.2 _).trans (Function.update_of_ne hk.1 ..)

/-- What is stored at a listed key depends on the list only. -/
theorem change_of_mem [DecidableEq K] {us : List (K × V)} {k : K} (hk : k ∈ us.map Prod.fst)
    (c c' : K → Option V) : change us c k = change us c' k := by
  induction us generalizing c c' with
  | nil => simp at hk
  | cons u us ih =>
    rw [change, List.foldl_cons, change, List.foldl_cons]
    by_cases hmem : k ∈ us.map Prod.fst
    · exact ih hmem _ _
    · have hu : k = u.1 := by simpa [hmem] using hk
      subst hu
      exact ((change_of_not_mem hmem _).trans (Function.update_self ..)).trans
        ((change_of_not_mem hmem _).trans (Function.update_self ..)).symm

/-- A second pass of the list changes nothing. -/
theorem change_change [DecidableEq K] (us : List (K × V)) (c : K → Option V) :
    change us (change us c) = change us c := by
  funext k
  by_cases hk : k ∈ us.map Prod.fst
  · exact change_of_mem hk _ _
  · exact change_of_not_mem hk _

/-! ## The order of the updates -/

/-- What an update does to its own key depends on what is stored there only. -/
theorem getElem?_updateIf_congr {m m' : ExtTreeMap K V cmp} {k : K} (h : m[k]? = m'[k]?) (u : K × V) :
    (updateIf g m u)[k]? = (updateIf g m' u)[k]? := by
  by_cases he : u.1 = k
  · subst he
    rw [getElem?_updateIf_self, getElem?_updateIf_self, h]
  · rw [getElem?_updateIf_ne _ he, getElem?_updateIf_ne _ he, h]

/-- Guarded updates of different keys commute. -/
theorem updateIf_comm (m : ExtTreeMap K V cmp) {u w : K × V} (h : u.1 ≠ w.1) :
    updateIf g (updateIf g m u) w = updateIf g (updateIf g m w) u := by
  apply ExtTreeMap.ext_getElem?
  intro k
  by_cases hk : u.1 = k
  · have hw : w.1 ≠ k := fun he => h (hk.trans he.symm)
    rw [getElem?_updateIf_ne _ hw]
    exact getElem?_updateIf_congr (getElem?_updateIf_ne m hw).symm u
  · rw [getElem?_updateIf_ne (updateIf g m w) hk]
    exact getElem?_updateIf_congr (getElem?_updateIf_ne m hk) w

/-- **The order of guarded updates** does not matter when each key is updated once. -/
theorem updateAllIf_perm {us us' : List (K × V)} (hp : us.Perm us') (hd : (us.map Prod.fst).Nodup)
    (m : ExtTreeMap K V cmp) : updateAllIf g m us = updateAllIf g m us' := by
  refine hp.foldl_eq' (fun u hu w hw m => ?_) m
  by_cases hk : u.1 = w.1
  · rw [List.inj_on_of_nodup_map hd hu hw hk]
  · exact updateIf_comm m hk

/-- The order of plain updates, likewise. -/
theorem updateAll_perm {us us' : List (K × V)} (hp : us.Perm us') (hd : (us.map Prod.fst).Nodup)
    (m : ExtTreeMap K V cmp) : updateAll m us = updateAll m us' := by
  have htrue : ∀ us : List (K × V), updateAll m us = updateAllIf (fun _ => True) m us := by
    intro us
    exact ((updateAllIf_eq_iff (fun _ _ => trivial) us).2 fun _ _ => trivial).symm
  rw [htrue, htrue]
  exact updateAllIf_perm hp hd m

/-- Each key is updated once: the erasing updates may go first. -/
theorem updateAll_erasing_first {us : List (K × V)} (hd : (us.map Prod.fst).Nodup) (m : ExtTreeMap K V cmp) :
    updateAll (updateAll m (us.filter fun u => u.2 = 0)) (us.filter fun u => u.2 ≠ 0) = updateAll m us := by
  have hperm : (us.filter (fun u => u.2 = 0) ++ us.filter fun u => u.2 ≠ 0).Perm us := by
    simpa using List.filter_append_perm (fun u : K × V => u.2 = 0) us
  rw [updateAll_perm hperm.symm hd]
  exact (List.foldl_append ..).symm

/-! ## Maps without the value 0 -/

/-- No key is stored with the value `0`. -/
def NoZero (m : ExtTreeMap K V cmp) : Prop := ∀ k : K, m[k]? ≠ some 0

/-- An update stores no `0`. -/
theorem noZero_updateIf {m : ExtTreeMap K V cmp} (hm : NoZero m) (u : K × V) : NoZero (updateIf g m u) := by
  intro k
  by_cases hk : u.1 = k
  · subst hk
    rw [getElem?_updateIf_self]
    split
    · simp
    · split
      · simpa
      · exact hm _
  · rw [getElem?_updateIf_ne _ hk]
    exact hm k

theorem noZero_updateAllIf {m : ExtTreeMap K V cmp} (hm : NoZero m) (us : List (K × V)) :
    NoZero (updateAllIf g m us) := by
  induction us generalizing m with
  | nil => exact hm
  | cons u us ih => exact ih (noZero_updateIf hm u)

/-- Every entry with the value `0` has a later one with the same key. -/
def ZerosOverwritten (l : List (K × V)) : Prop :=
  ∀ pre k post, l = pre ++ (k, 0) :: post → k ∈ post.map Prod.fst

omit [DecidableEq V] in
/-- A map built from a list stores no `0` exactly when the list overwrites each of its own. -/
theorem noZero_ofList {l : List (K × V)} : NoZero (ExtTreeMap.ofList l cmp) ↔ ZerosOverwritten l := by
  unfold NoZero ZerosOverwritten
  simp only [ne_eq, getElem?_ofList, LastEntry]
  constructor
  · intro h pre k post heq
    by_contra hk
    exact h k ⟨pre, post, heq, hk⟩
  · rintro h k ⟨pre, post, heq, hk⟩
    exact hk (h pre k post heq)

/-! ## Updates that only store -/

omit [LawfulEqCmp cmp] in
theorem updateAll_eq_foldl_insert {us : List (K × V)} (h : ∀ u ∈ us, u.2 ≠ 0) (m : ExtTreeMap K V cmp) :
    updateAll m us = us.foldl (fun m u => m.insert u.1 u.2) m := by
  induction us generalizing m with
  | nil => rfl
  | cons u us ih =>
    obtain ⟨hu, hus⟩ := List.forall_mem_cons.1 h
    have hstep : update m u = m.insert u.1 u.2 := if_neg hu
    rw [List.foldl_cons, ← hstep]
    exact ih hus _

omit [LawfulEqCmp cmp] in
/-- Updates that only erase add no key. -/
theorem mem_of_mem_updateAll {us : List (K × V)} (h : ∀ u ∈ us, u.2 = 0) {m : ExtTreeMap K V cmp} {k : K}
    (hk : k ∈ updateAll m us) : k ∈ m := by
  induction us generalizing m with
  | nil => exact hk
  | cons u us ih =>
    obtain ⟨hu, hus⟩ := List.forall_mem_cons.1 h
    have hstep : update m u = m.erase u.1 := if_pos hu
    have hmem : k ∈ m.erase u.1 := hstep ▸ ih hus hk
    exact ExtTreeMap.mem_of_mem_erase hmem

omit [LawfulEqCmp cmp] in
/-- Updates that only store keep every key. -/
theorem mem_updateAll_of_mem {us : List (K × V)} (h : ∀ u ∈ us, u.2 ≠ 0) {m : ExtTreeMap K V cmp} {k : K} (hk : k ∈ m) :
    k ∈ updateAll m us := by
  induction us generalizing m with
  | nil => exact hk
  | cons u us ih =>
    obtain ⟨hu, hus⟩ := List.forall_mem_cons.1 h
    have hstep : update m u = m.insert u.1 u.2 := if_neg hu
    refine ih hus ?_
    rw [hstep]
    exact ExtTreeMap.mem_insert.2 (Or.inr hk)

omit [LawfulEqCmp cmp] in
/-- Updates that only store make the map of their list. -/
theorem updateAll_empty {us : List (K × V)} (h : ∀ u ∈ us, u.2 ≠ 0) :
    updateAll (∅ : ExtTreeMap K V cmp) us = ExtTreeMap.ofList us cmp := by
  rw [updateAll_eq_foldl_insert h, ExtTreeMap.ofList_eq_foldl]

end Updates

/-- The map of a list, copied under another comparator. -/
theorem recmp_ofList {cmp cmp' : K → K → Ordering} [TransCmp cmp] [LawfulEqCmp cmp] [TransCmp cmp'] [LawfulEqCmp cmp']
    (l : List (K × V)) : recmp cmp' (ExtTreeMap.ofList l cmp) = ExtTreeMap.ofList l cmp' := by
  apply ExtTreeMap.ext_getElem?
  intro k
  apply Option.ext
  intro v
  rw [getElem?_recmp, getElem?_ofList, getElem?_ofList]

end OrderedMap
