import Mathlib.Data.Finset.SDiff

/-!
# Sets that are added to and removed from

A set that goes through a list of updates. Where the removals get lost (`applyAdds`), it ends up as it should exactly
when every element that a removal would take out is added again later (`foldl_applyAdds_eq_iff`).
-/

namespace SetUpdates

variable {α : Type} [DecidableEq α]

inductive Update (α : Type)
  | add (xs : List α)
  | remove (xs : List α)

def apply (s : Finset α) : Update α → Finset α
  | .add xs => s ∪ xs.toFinset
  | .remove xs => s \ xs.toFinset

/-- The update, if it adds. -/
def applyAdds (s : Finset α) : Update α → Finset α
  | .add xs => s ∪ xs.toFinset
  | .remove _ => s

def Adds (us : List (Update α)) (x : α) : Prop := ∃ xs, .add xs ∈ us ∧ x ∈ xs

/-- What a removal takes out of the set is added again later. -/
def ReAdded (us : List (Update α)) (s : Finset α) : Prop :=
  ∀ pre xs post, us = pre ++ .remove xs :: post → ∀ x ∈ xs, x ∈ pre.foldl apply s → Adds post x

variable {us : List (Update α)} {s t : Finset α} {xs : List α} {x : α}

omit [DecidableEq α] in
theorem adds_cons_add : Adds (.add xs :: us) x ↔ x ∈ xs ∨ Adds us x := by
  unfold Adds
  constructor
  · rintro ⟨ys, hys, hx⟩
    rcases List.mem_cons.1 hys with he | hin
    · cases he; exact .inl hx
    · exact .inr ⟨ys, hin, hx⟩
  · rintro (hx | ⟨ys, hys, hx⟩)
    · exact ⟨xs, List.mem_cons_self, hx⟩
    · exact ⟨ys, List.mem_cons_of_mem _ hys, hx⟩

omit [DecidableEq α] in
theorem adds_cons_remove : Adds (.remove xs :: us) x ↔ Adds us x := by
  simp [Adds]

theorem reAdded_nil : ReAdded [] s := by
  intro pre xs post heq
  cases pre <;> cases heq

theorem reAdded_cons {u : Update α} : ReAdded (u :: us) s ↔
    (∀ xs, u = .remove xs → ∀ x ∈ xs, x ∈ s → Adds us x) ∧ ReAdded us (apply s u) := by
  constructor
  · intro h
    refine ⟨fun xs hu x hx hs => ?_, fun pre xs post heq => ?_⟩
    · exact h [] xs us (by rw [hu]; rfl) x hx hs
    · exact h (u :: pre) xs post (by rw [heq]; rfl)
  · rintro ⟨hhead, htail⟩ pre xs post heq
    cases pre with
    | nil => cases heq; exact hhead xs rfl
    | cons v pre => cases heq; exact htail pre xs post rfl

/-- The two sets end up the same when what only the first has is added, and what is removed is added again. -/
theorem foldl_applyAdds_eq_foldl_apply_iff (h : t ⊆ s) :
    us.foldl applyAdds s = us.foldl apply t ↔ (∀ x ∈ s, x ∉ t → Adds us x) ∧ ReAdded us t := by
  induction us generalizing s t with
  | nil =>
    have hadds : ∀ x, ¬ Adds ([] : List (Update α)) x := by
      rintro x ⟨xs, hxs, -⟩
      cases hxs
    simp only [List.foldl_nil, reAdded_nil, and_true, hadds, imp_false, not_not]
    exact ⟨fun he x hx => he ▸ hx, fun hsub => Finset.Subset.antisymm hsub h⟩
  | cons u us ih =>
    rw [List.foldl_cons, List.foldl_cons, reAdded_cons]
    cases u with
    | add xs =>
      rw [applyAdds, apply, ih (Finset.union_subset_union h (Finset.Subset.refl _))]
      simp only [adds_cons_add, Finset.mem_union, List.mem_toFinset]
      constructor
      · rintro ⟨hadd, hre⟩
        refine ⟨fun x hx hnx => ?_, nofun, hre⟩
        by_cases hin : x ∈ xs
        · exact .inl hin
        · exact .inr (hadd x (.inl hx) (not_or.2 ⟨hnx, hin⟩))
      · rintro ⟨hadd, -, hre⟩
        refine ⟨fun x hx hnx => ?_, hre⟩
        obtain ⟨hnx, hin⟩ := not_or.1 hnx
        exact (hadd x (hx.resolve_right hin) hnx).resolve_left hin
    | remove xs =>
      rw [applyAdds, apply, ih (Finset.sdiff_subset.trans h)]
      simp only [adds_cons_remove, Finset.mem_sdiff, List.mem_toFinset, Update.remove.injEq]
      constructor
      · rintro ⟨hadd, hre⟩
        refine ⟨fun x hx hnx => hadd x hx fun hin => hnx hin.1, ?_, hre⟩
        rintro ys rfl x hx ht
        exact hadd x (h ht) fun hin => hin.2 hx
      · rintro ⟨hadd, hremoved, hre⟩
        refine ⟨fun x hx hnx => ?_, hre⟩
        by_cases ht : x ∈ t
        · have hin : x ∈ xs := by
            by_contra hnin
            exact hnx ⟨ht, hnin⟩
          exact hremoved xs rfl x hin ht
        · exact hadd x hx ht

/-- **Lost removals** do no harm exactly when what they take out is added again. -/
theorem foldl_applyAdds_eq_iff (us : List (Update α)) (s : Finset α) :
    us.foldl applyAdds s = us.foldl apply s ↔ ReAdded us s := by
  rw [foldl_applyAdds_eq_foldl_apply_iff (Finset.Subset.refl s)]
  exact and_iff_right fun x hx hnx => absurd hx hnx

end SetUpdates
