import Mathlib.Tactic.Common

/-!
# Composite reads of a shared state

A composite reader takes several observations of a shared state, each one atomic, while writers act on the state in
between (`Reader`). The lock orders the operations, so an interleaving is the list of the foreign operations that fall
into each gap between two consecutive observations (`interleaved`). The reader alone on one state takes all of its
observations there (`alone`), and `moments` are the states that existed between its first and its last observation.

An interleaving is `Undisturbed` when there is a point in time such that every foreign operation before it leaves the
observations already taken as they were, and every one after it leaves those still to be taken as they were. It then
gives what the reader alone gives at that moment (`interleaved_of_undisturbed`).
-/

namespace SharedReads

variable {σ ω V ρ : Type}

inductive Reader (σ V ρ : Type)
  | ret (r : ρ)
  | read (q : σ → V) (k : V → Reader σ V ρ)

/-- All observations on one state. -/
def alone : Reader σ V ρ → σ → ρ
  | .ret r, _ => r
  | .read q k, s => alone (k (q s)) s

/-- The reader takes `n` observations, whatever it observes. -/
def Reader.Takes : Reader σ V ρ → ℕ → Prop
  | .ret _, n => n = 0
  | .read _ k, n => ∃ m, n = m + 1 ∧ ∀ v, (k v).Takes m

section Interleaving

variable (apply : σ → ω → σ)

/-- The state after the foreign operations of the next gap. -/
def advance (s : σ) (gaps : List (List ω)) : σ := (gaps.headD []).foldl apply s

/-- The first observation is taken at `s`, and the foreign operations `gaps[i]` fall between observations `i` and
`i + 1`. -/
def interleaved : Reader σ V ρ → σ → List (List ω) → ρ
  | .ret r, _, _ => r
  | .read q k, s, gaps => interleaved (k (q s)) (advance apply s gaps) gaps.tail

/-- The states that existed between the first and the last observation, both included. -/
def moments : Reader σ V ρ → σ → List (List ω) → List σ
  | .ret _, _, _ => []
  | .read q k, s, gaps =>
    match k (q s) with
    | .ret _ => [s]
    | .read _ _ => (gaps.headD []).scanl apply s ++ moments (k (q s)) (advance apply s gaps) gaps.tail

/-! ## Undisturbed interleavings -/

/-- Each of the operations, run from `s` in turn, leaves the observation as it was. -/
def Leaves (q : σ → V) : σ → List ω → Prop
  | _, [] => True
  | s, op :: ops => q (apply s op) = q s ∧ Leaves q (apply s op) ops

/-- Each of the operations leaves every observation of the reader as it was. -/
def LeavesAll : Reader σ V ρ → σ → List ω → Prop
  | .ret _, _, _ => True
  | .read q k, s, ops => Leaves apply q s ops ∧ LeavesAll (k (q s)) s ops

/-- In each gap, the foreign operations leave the observations still to be taken as they were. -/
def LeavesRest : Reader σ V ρ → σ → List (List ω) → Prop
  | .ret _, _, _ => True
  | .read q k, s, gaps =>
    LeavesAll apply (k (q s)) s (gaps.headD []) ∧ LeavesRest (k (q s)) (advance apply s gaps) gaps.tail

/-- The point in time falls into the next gap, or into a later one; `taken` are the observations taken so far. -/
def Undisturbed : List (σ → V) → Reader σ V ρ → σ → List (List ω) → Prop
  | _, .ret _, _, _ => False
  | taken, .read q k, s, gaps =>
    (∃ before after, gaps.headD [] = before ++ after ∧ (∀ o ∈ q :: taken, Leaves apply o s before) ∧
      LeavesAll apply (k (q s)) (before.foldl apply s) after ∧
        LeavesRest apply (k (q s)) (advance apply s gaps) gaps.tail) ∨
    (∀ o ∈ q :: taken, Leaves apply o s (gaps.headD [])) ∧
      Undisturbed (q :: taken) (k (q s)) (advance apply s gaps) gaps.tail

end Interleaving

/-! ## What an undisturbed interleaving gives -/

variable {apply : σ → ω → σ}

theorem Leaves.foldl_eq {q : σ → V} : ∀ {ops : List ω} {s : σ}, Leaves apply q s ops → q (ops.foldl apply s) = q s
  | [], _, _ => rfl
  | op :: ops, s, h => by
    rw [List.foldl_cons, h.2.foldl_eq, h.1]

/-- The reader observes at `m` what it observes at `s`. -/
def Same : Reader σ V ρ → σ → σ → Prop
  | .ret _, _, _ => True
  | .read q k, m, s => q m = q s ∧ Same (k (q s)) m s

theorem same_refl (r : Reader σ V ρ) (s : σ) : Same r s s := by
  induction r with
  | ret c => trivial
  | read q k ih => exact ⟨rfl, ih (q s)⟩

theorem Same.foldl {r : Reader σ V ρ} {m s : σ} {ops : List ω} (h : Same r m s) (hl : LeavesAll apply r s ops) :
    Same r m (ops.foldl apply s) := by
  induction r with
  | ret c => trivial
  | read q k ih =>
    have hq : q (ops.foldl apply s) = q s := hl.1.foldl_eq
    refine ⟨h.1.trans hq.symm, ?_⟩
    rw [hq]
    exact ih (q s) h.2 hl.2

/-- A reader that would observe the same at `m` observes in the interleaving what it would observe at `m`. -/
theorem interleaved_of_leavesRest {r : Reader σ V ρ} {m s : σ} {gaps : List (List ω)} (h : Same r m s)
    (hl : LeavesRest apply r s gaps) : interleaved apply r s gaps = alone r m := by
  induction r generalizing s gaps with
  | ret c => rfl
  | read q k ih =>
    rw [interleaved, alone, h.1]
    exact ih (q s) (h.2.foldl hl.1) hl.2

theorem foldl_mem_scanl (before after : List ω) (s : σ) :
    before.foldl apply s ∈ (before ++ after).scanl apply s := by
  induction before generalizing s with
  | nil => cases after <;> simp
  | cons op before ih =>
    rw [List.cons_append, List.scanl_cons]
    exact List.mem_cons_of_mem _ (ih (apply s op))

/-- At the moment of the point in time the observations taken are what they were, and the rest of the reader gives
what it would give there. -/
theorem Undisturbed.moment {r : Reader σ V ρ} {s : σ} {gaps : List (List ω)} {taken : List (σ → V)}
    (h : Undisturbed apply taken r s gaps) :
    ∃ m ∈ moments apply r s gaps, (∀ o ∈ taken, o m = o s) ∧ interleaved apply r s gaps = alone r m := by
  induction r generalizing s gaps taken with
  | ret c => exact h.elim
  | read q k ih =>
    cases hk : k (q s) with
    | ret c =>
      refine ⟨s, by simp [moments, hk], fun _ _ => rfl, ?_⟩
      rw [interleaved, alone, hk]
      rfl
    | read q' k' =>
      have hmoments : moments apply (.read q k) s gaps = (gaps.headD []).scanl apply s ++
          moments apply (k (q s)) (advance apply s gaps) gaps.tail := by simp only [moments, hk]
      rw [hmoments]
      rcases h with ⟨before, after, hgap, htaken, hafter, hrest⟩ | ⟨htaken, hlater⟩
      · have hq : q (before.foldl apply s) = q s := (htaken q List.mem_cons_self).foldl_eq
        have hadv : advance apply s gaps = after.foldl apply (before.foldl apply s) := by
          rw [advance, hgap, List.foldl_append]
        refine ⟨before.foldl apply s, ?_, fun o ho => (htaken o (List.mem_cons_of_mem _ ho)).foldl_eq, ?_⟩
        · rw [hgap]
          exact List.mem_append_left _ (foldl_mem_scanl before after s)
        · rw [interleaved, alone, hq]
          apply interleaved_of_leavesRest _ hrest
          rw [hadv]
          exact (same_refl _ _).foldl hafter
      · obtain ⟨m, hm, hkept, heq⟩ := ih (q s) hlater
        have hback : ∀ o ∈ q :: taken, o m = o s := by
          intro o ho
          exact (hkept o ho).trans (htaken o ho).foldl_eq
        refine ⟨m, List.mem_append_right _ hm, fun o ho => hback o (List.mem_cons_of_mem _ ho), ?_⟩
        rw [interleaved, alone, hback q List.mem_cons_self]
        exact heq

/-- An undisturbed interleaving gives what the reader alone gives at some moment. -/
theorem interleaved_of_undisturbed {r : Reader σ V ρ} {s : σ} {gaps : List (List ω)}
    (h : Undisturbed apply [] r s gaps) : ∃ m ∈ moments apply r s gaps, interleaved apply r s gaps = alone r m := by
  obtain ⟨m, hm, -, heq⟩ := h.moment
  exact ⟨m, hm, heq⟩

end SharedReads
