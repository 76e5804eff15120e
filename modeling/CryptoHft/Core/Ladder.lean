import CryptoHft.Lib.Machine
import Mathlib.Order.Lattice

/-!
# The ladder: what an order book is for

A ladder stores, on each of two sides, at most one size per price. A size is written only where it does not cross the
other side (`Accepts`): a bid strictly below every ask, an ask strictly above every bid.

* The ladder stays uncrossed (`step_uncrossed`), over whole lists of operations (`foldl_uncrossed`);
* a book steps as the ladder does if it changes the one level and keeps the others (`eq_step_write`, `eq_step_drop`);
* what each operation does to one price of one side is an effect on a cell (`effect`, `step_cell`), so the history
  of a cell applies to the levels of every book that refines the ladder.

The two sides are treated at once: `inside s p q` says that price `p` of side `s` does not cross price `q` of the
other side.
-/

namespace CryptoHft

open Machine

inductive Side
  | bid
  | ask
deriving DecidableEq, Repr

namespace Side

def other : Side → Side
  | .bid => .ask
  | .ask => .bid

@[simp] theorem other_other (s : Side) : s.other.other = s := by cases s <;> rfl

end Side

/-- A price of side `s` that does not cross a price of the other side. -/
def inside {P : Type} [LinearOrder P] : Side → P → P → Prop
  | .bid, p, q => p < q
  | .ask, p, q => q < p

theorem inside_other {P : Type} [LinearOrder P] (s : Side) (p q : P) : inside s.other p q ↔ inside s q p := by
  cases s <;> exact Iff.rfl

def Ladder (P S : Type) : Type := Side → P → Option S

namespace Ladder

variable {P S : Type} [LinearOrder P]

inductive Op (P S : Type)
  | write (s : Side) (p : P) (v : S)
  | drop (s : Side) (p : P)
  | reset (l : Ladder P S)

def empty : Ladder P S := fun _ _ => none

/-- The price crosses no level of the other side. -/
def Accepts (l : Ladder P S) (s : Side) (p : P) : Prop := ∀ q v, l s.other q = some v → inside s p q

/-- No level crosses a level of the other side. -/
def Uncrossed (l : Ladder P S) : Prop := ∀ s p v, l s p = some v → l.Accepts s p

/-- What an operation does to the level of side `s` at price `p`. -/
noncomputable def effect (s : Side) (p : P) (l : Ladder P S) : Op P S → Effect S
  | .write s' p' v =>
    open Classical in if s' = s ∧ p' = p ∧ l.Accepts s' p' then .write v else .keep
  | .drop s' p' => if s' = s ∧ p' = p then .erase else .keep
  | .reset l' =>
    match l' s p with
    | some v => .write v
    | none => .erase

noncomputable def step (l : Ladder P S) (op : Op P S) : Ladder P S := fun s p => (effect s p l op).apply (l s p)

theorem step_cell (s : Side) (p : P) (l : Ladder P S) (op : Op P S) :
    step l op s p = (effect s p l op).apply (l s p) := rfl

/-! ## The effect of one operation -/

theorem effect_write_of_accepts {l : Ladder P S} {s : Side} {p : P} (h : l.Accepts s p) (v : S) :
    effect s p l (.write s p v) = .write v := if_pos ⟨rfl, rfl, h⟩

theorem effect_write_of_not_accepts {l : Ladder P S} {s : Side} {p : P} (h : ¬ l.Accepts s p) (s' : Side) (p' : P)
    (v : S) : effect s' p' l (.write s p v) = .keep := if_neg fun ⟨_, _, ha⟩ => h ha

theorem effect_write_of_ne {l : Ladder P S} {s s' : Side} {p p' : P} (h : ¬ (s = s' ∧ p = p')) (v : S) :
    effect s' p' l (.write s p v) = .keep := if_neg fun ⟨hs, hp, _⟩ => h ⟨hs, hp⟩

theorem effect_drop_self (l : Ladder P S) (s : Side) (p : P) : effect s p l (.drop s p) = .erase :=
  if_pos ⟨rfl, rfl⟩

theorem effect_drop_of_ne (l : Ladder P S) {s s' : Side} {p p' : P} (h : ¬ (s = s' ∧ p = p')) :
    effect s' p' l (.drop s p) = .keep := if_neg h

theorem effect_write_eq_write {l : Ladder P S} {s s' : Side} {p p' : P} {v v' : S} :
    effect s p l (.write s' p' v') = .write v ↔ s' = s ∧ p' = p ∧ v' = v ∧ l.Accepts s' p' := by
  by_cases h : s' = s ∧ p' = p ∧ l.Accepts s' p'
  · rw [effect, if_pos h, Effect.write.injEq]
    exact ⟨fun he => ⟨h.1, h.2.1, he, h.2.2⟩, fun he => he.2.2.1⟩
  · rw [effect, if_neg h]
    exact iff_of_false nofun fun he => h ⟨he.1, he.2.1, he.2.2.2⟩

theorem effect_write_eq_keep {l : Ladder P S} {s s' : Side} {p p' : P} {v' : S} :
    effect s p l (.write s' p' v') = .keep ↔ ¬ (s' = s ∧ p' = p ∧ l.Accepts s' p') := by
  by_cases h : s' = s ∧ p' = p ∧ l.Accepts s' p'
  · rw [effect, if_pos h]
    exact iff_of_false nofun (not_not_intro h)
  · rw [effect, if_neg h]
    exact iff_of_true rfl h

theorem effect_drop_ne_write {l : Ladder P S} {s s' : Side} {p p' : P} {v : S} :
    effect s p l (.drop s' p') ≠ .write v := by
  by_cases h : s' = s ∧ p' = p
  · rw [effect, if_pos h]; simp
  · rw [effect, if_neg h]; simp

theorem effect_drop_eq_keep {l : Ladder P S} {s s' : Side} {p p' : P} :
    effect s p l (.drop s' p') = .keep ↔ ¬ (s' = s ∧ p' = p) := by
  by_cases h : s' = s ∧ p' = p
  · rw [effect, if_pos h]
    exact iff_of_false nofun (not_not_intro h)
  · rw [effect, if_neg h]
    exact iff_of_true rfl h

theorem effect_reset_eq_write {l l' : Ladder P S} {s : Side} {p : P} {v : S} :
    effect s p l (.reset l') = .write v ↔ l' s p = some v := by
  rw [effect]
  cases l' s p <;> simp

theorem effect_reset_ne_keep {l l' : Ladder P S} {s : Side} {p : P} : effect s p l (.reset l') ≠ .keep := by
  rw [effect]
  cases l' s p <;> simp

/-- A rejected write changes nothing. -/
theorem step_write_of_not_accepts {l : Ladder P S} {s : Side} {p : P} (h : ¬ l.Accepts s p) (v : S) :
    step l (.write s p v) = l := by
  funext s' p'
  rw [step_cell, effect_write_of_not_accepts h]
  rfl

/-- An accepted write is what stores the value and leaves every other level as it was. -/
theorem eq_step_write {l l' : Ladder P S} {s : Side} {p : P} {v : S} (ha : l.Accepts s p) (hself : l' s p = some v)
    (hne : ∀ s' p', ¬ (s = s' ∧ p = p') → l' s' p' = l s' p') : l' = step l (.write s p v) := by
  funext s' p'
  rw [step_cell]
  by_cases hc : s = s' ∧ p = p'
  · obtain ⟨rfl, rfl⟩ := hc
    rw [effect_write_of_accepts ha]
    exact hself
  · rw [effect_write_of_ne hc]
    exact hne s' p' hc

/-- A drop is what erases the level and leaves every other level as it was. -/
theorem eq_step_drop {l l' : Ladder P S} {s : Side} {p : P} (hself : l' s p = none)
    (hne : ∀ s' p', ¬ (s = s' ∧ p = p') → l' s' p' = l s' p') : l' = step l (.drop s p) := by
  funext s' p'
  rw [step_cell]
  by_cases hc : s = s' ∧ p = p'
  · obtain ⟨rfl, rfl⟩ := hc
    rw [effect_drop_self]
    exact hself
  · rw [effect_drop_of_ne _ hc]
    exact hne s' p' hc

theorem step_reset (l l' : Ladder P S) : step l (.reset l') = l' := by
  funext s p
  rw [step_cell, effect]
  cases l' s p <;> rfl

/-- A level after a write is the written one or an old one. -/
theorem of_step_write {l : Ladder P S} {s s' : Side} {p p' : P} {v v' : S}
    (h : step l (.write s p v) s' p' = some v') : (s' = s ∧ p' = p ∧ l.Accepts s p) ∨ l s' p' = some v' := by
  by_cases hc : s = s' ∧ p = p' ∧ l.Accepts s p
  · obtain ⟨rfl, rfl, ha⟩ := hc
    exact Or.inl ⟨rfl, rfl, ha⟩
  · rw [step_cell, effect, if_neg hc] at h
    exact Or.inr h

theorem of_step_drop {l : Ladder P S} {s s' : Side} {p p' : P} {v' : S} (h : step l (.drop s p) s' p' = some v') :
    l s' p' = some v' := by
  by_cases hc : s = s' ∧ p = p'
  · rw [step_cell, effect, if_pos hc] at h
    cases h
  · rw [step_cell, effect, if_neg hc] at h
    exact h

/-! ## The ladder stays uncrossed -/

theorem empty_uncrossed : (empty : Ladder P S).Uncrossed := fun _ _ _ h => by cases h

/-- A step keeps the ladder uncrossed, when a reset installs an uncrossed ladder. -/
theorem step_uncrossed {l : Ladder P S} (h : l.Uncrossed) {op : Op P S} (hop : ∀ l', op = .reset l' → l'.Uncrossed) :
    (step l op).Uncrossed := by
  cases op with
  | reset l' => rw [step_reset]; exact hop l' rfl
  | drop s p =>
    intro s₁ p₁ v₁ h₁ q w hq
    exact h s₁ p₁ v₁ (of_step_drop h₁) q w (of_step_drop hq)
  | write s p v =>
    intro s₁ p₁ v₁ h₁ q w hq
    rcases of_step_write h₁ with ⟨rfl, rfl, ha⟩ | hold
    · rcases of_step_write hq with ⟨hs, -, -⟩ | hq
      · cases s₁ <;> cases hs
      · exact ha q w hq
    · rcases of_step_write hq with ⟨hs, rfl, ha⟩ | hq
      · -- the new level sits on the other side of the old one
        subst hs
        rw [← inside_other]
        exact ha p₁ v₁ (by rw [Side.other_other]; exact hold)
      · exact h s₁ p₁ v₁ hold q w hq

theorem foldl_uncrossed (ops : List (Op P S)) {l : Ladder P S} (h : l.Uncrossed)
    (hops : ∀ l', Op.reset l' ∈ ops → l'.Uncrossed) : (ops.foldl step l).Uncrossed := by
  induction ops generalizing l with
  | nil => exact h
  | cons op ops ih =>
    have hop := step_uncrossed h fun l' he => hops l' (he ▸ List.mem_cons_self)
    exact ih hop fun l' hm => hops l' (List.mem_cons_of_mem _ hm)

end Ladder

end CryptoHft
