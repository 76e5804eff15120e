import Mathlib.Data.List.Forall2
import Mathlib.Tactic.Common

/-!
# Computations that may throw or be undefined

An `Outcome` is the result of a piece of code that returns a value, throws an exception, or has no defined behaviour.
A `try` block catches exceptions only (`attempt`).

* `Defined x` says that `x` is not undefined; of a sequence, that the first part is defined and so is the second, for
  the value that the first one returns (`defined_bind`).
* A loop that collects a value for each element of a list (`each`) is defined when the first element, if any, for which
  it does not get a value throws (`defined_each`).
-/

inductive Fault
  | exception
  | undefined
deriving DecidableEq, Repr

abbrev Outcome (α : Type) := Except Fault α

namespace Outcome

variable {α β : Type}

def throws : Outcome α := .error .exception

/-- `try { body } catch (...) { handler }`. -/
def attempt (body handler : Outcome α) : Outcome α :=
  match body with
  | .ok a => .ok a
  | .error .exception => handler
  | .error .undefined => .error .undefined

def Defined (x : Outcome α) : Prop := x ≠ .error .undefined

instance (x : Outcome α) : Decidable (Defined x) :=
  match x with
  | .ok _ => .isTrue nofun
  | .error .exception => .isTrue nofun
  | .error .undefined => .isFalse fun h => h rfl

@[simp] theorem attempt_ok (a : α) (handler : Outcome α) : attempt (.ok a) handler = .ok a := rfl

@[simp] theorem attempt_exception (handler : Outcome α) : attempt (.error .exception) handler = handler := rfl

@[simp] theorem attempt_undefined (handler : Outcome α) :
    attempt (.error .undefined) handler = .error .undefined := rfl

@[simp] theorem bind_ok (a : α) (f : α → Outcome β) : ((Except.ok a : Outcome α) >>= f) = f a := rfl

@[simp] theorem bind_error (e : Fault) (f : α → Outcome β) : ((Except.error e : Outcome α) >>= f) = .error e := rfl

@[simp] theorem pure_eq (a : α) : (pure a : Outcome α) = .ok a := rfl

@[simp] theorem throws_eq : (throws : Outcome α) = .error .exception := rfl

@[simp] theorem defined_ok (a : α) : Defined (.ok a : Outcome α) := nofun

@[simp] theorem defined_exception : Defined (.error .exception : Outcome α) := nofun

@[simp] theorem not_defined_undefined : ¬ Defined (.error .undefined : Outcome α) := fun h => h rfl

theorem defined_error {e : Fault} : Defined (.error e : Outcome α) ↔ e ≠ .undefined := by
  cases e <;> simp

theorem defined_bind {x : Outcome α} {f : α → Outcome β} :
    Defined (x >>= f) ↔ Defined x ∧ ∀ a, x = .ok a → Defined (f a) := by
  rcases x with (_ | _) | a <;> simp

theorem bind_eq_ok {x : Outcome α} {f : α → Outcome β} {b : β} : x >>= f = .ok b ↔ ∃ a, x = .ok a ∧ f a = .ok b := by
  cases x <;> simp

/-! ## The value of a computation -/

theorem toOption_eq_some {x : Outcome α} {a : α} : x.toOption = some a ↔ x = .ok a := by
  cases x <;> simp [Except.toOption]

@[simp] theorem toOption_ok (a : α) : (Except.ok a : Outcome α).toOption = some a := rfl

@[simp] theorem toOption_error (e : Fault) : (Except.error e : Outcome α).toOption = none := rfl

theorem toOption_bind (x : Outcome α) (f : α → Outcome β) :
    (x >>= f).toOption = x.toOption.bind fun a => (f a).toOption := by
  cases x <;> rfl

theorem toOption_map (f : α → β) (x : Outcome α) : (f <$> x).toOption = x.toOption.map f := by
  cases x <;> rfl

/-! ## Loops -/

/-- `for (x : xs) out.push_back(f(x))`. -/
def each (f : α → Outcome β) : List α → Outcome (List β)
  | [] => .ok []
  | x :: xs => do
    let y ← f x
    let ys ← each f xs
    return y :: ys

theorem each_cons_ok {f : α → Outcome β} {x : α} {y : β} (h : f x = .ok y) (xs : List α) :
    each f (x :: xs) = (each f xs).map (y :: ·) := by
  rw [each, h, bind_ok]
  cases each f xs <;> rfl

theorem each_cons_error {f : α → Outcome β} {x : α} {e : Fault} (h : f x = .error e) (xs : List α) :
    each f (x :: xs) = .error e := by
  rw [each, h, bind_error]

/-- The loop returns when every element gets a value. -/
theorem returns_each {f : α → Outcome β} {xs : List α} :
    (∃ ys, each f xs = .ok ys) ↔ ∀ x ∈ xs, ∃ y, f x = .ok y := by
  induction xs with
  | nil => simp [each]
  | cons x xs ih =>
    rw [List.forall_mem_cons, ← ih]
    cases hx : f x with
    | error e => simp [each_cons_error hx]
    | ok y => cases h : each f xs <;> simp [each_cons_ok hx, h, Except.map]

/-- The loop returns what it gets for the elements, in order. -/
theorem each_eq_ok {f : α → Outcome β} {xs : List α} {ys : List β} :
    each f xs = .ok ys ↔ List.Forall₂ (fun x y => f x = .ok y) xs ys := by
  induction xs generalizing ys with
  | nil => cases ys <;> simp [each]
  | cons x xs ih =>
    rw [each, bind_eq_ok]
    simp only [bind_eq_ok, pure_eq, Except.ok.injEq, List.forall₂_cons_left_iff, ih]
    constructor
    · rintro ⟨y, hy, ys', hys, rfl⟩
      exact ⟨y, ys', hy, hys, rfl⟩
    · rintro ⟨y, ys', hy, hys, rfl⟩
      exact ⟨y, hy, ys', hys, rfl⟩

theorem toOption_each (f : α → Outcome β) (xs : List α) :
    (each f xs).toOption = xs.mapM fun x => (f x).toOption := by
  induction xs with
  | nil => rfl
  | cons x xs ih => simp only [each, toOption_bind, ih, List.mapM_cons, pure_eq, toOption_ok]; rfl

/-- The loop is defined when the first element without a value throws. -/
theorem defined_each {f : α → Outcome β} {xs : List α} :
    Defined (each f xs) ↔ ∀ pre x post, xs = pre ++ x :: post → (∀ y ∈ pre, ∃ b, f y = .ok b) → Defined (f x) := by
  induction xs with
  | nil => exact iff_of_true (by simp [each]) fun pre _ _ h => by cases pre <;> cases h
  | cons x xs ih =>
    cases hx : f x with
    | error e =>
      rw [each_cons_error hx]
      constructor
      · intro h pre z post heq hpre
        cases pre with
        | nil => cases heq; rw [hx]; exact defined_error.2 (defined_error.1 h)
        | cons w pre =>
          cases heq
          obtain ⟨b, hb⟩ := hpre x List.mem_cons_self
          rw [hx] at hb; cases hb
      · intro h
        have hfx := h [] x xs rfl nofun
        rw [hx] at hfx
        exact defined_error.2 (defined_error.1 hfx)
    | ok y =>
      have hmap : Defined (each f (x :: xs)) ↔ Defined (each f xs) := by
        rw [each_cons_ok hx]
        rcases each f xs with (_ | _) | ys <;> simp [Except.map]
      rw [hmap, ih]
      constructor
      · intro h pre z post heq hpre
        cases pre with
        | nil => cases heq; rw [hx]; exact defined_ok y
        | cons w pre => cases heq; exact h pre z post rfl fun v hv => hpre v (List.mem_cons_of_mem _ hv)
      · intro h pre z post heq hpre
        exact h (x :: pre) z post (by rw [heq]; rfl) (List.forall_mem_cons.2 ⟨⟨y, hx⟩, hpre⟩)

end Outcome
