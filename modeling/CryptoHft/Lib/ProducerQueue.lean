import Mathlib.Tactic.Common

/-!
# A queue that is first-in first-out for each producer

A concurrent queue that keeps the order of each producer's items, but none between producers. Its content is a list of
items tagged with their producers; the consumer takes the oldest item of a producer of the queue's choice
(`dequeue`). Seen from one producer (`of i`), enqueuing appends one item and dequeuing removes the first one
(`of_enqueue_self`, `of_dequeue_self`), and the other producers see nothing (`of_enqueue_ne`, `of_dequeue_ne`).

A `Line` is such a queue with one consumer, which holds at most one item: every item that entered has left, is in the
consumer's hand or is waiting, in the order of its producer (`Line.Step.conserved`).
-/

namespace ProducerQueue

variable {ι U : Type} [DecidableEq ι]

/-- The items of producer `i`, oldest first. -/
def of (i : ι) (q : List (ι × U)) : List U := q.filterMap fun e => if e.1 = i then some e.2 else none

def enqueue (i : ι) (u : U) (q : List (ι × U)) : List (ι × U) := q ++ [(i, u)]

/-- Take the oldest item of producer `i`. -/
def dequeue (i : ι) : List (ι × U) → Option (U × List (ι × U))
  | [] => none
  | (j, u) :: q => if j = i then some (u, q) else (dequeue i q).map fun (v, q') => (v, (j, u) :: q')

@[simp] theorem of_nil (i : ι) : of i ([] : List (ι × U)) = [] := rfl

@[simp] theorem of_append (i : ι) (q q' : List (ι × U)) : of i (q ++ q') = of i q ++ of i q' :=
  List.filterMap_append

theorem of_cons_self (i : ι) (u : U) (q : List (ι × U)) : of i ((i, u) :: q) = u :: of i q := by
  simp [of]

theorem of_cons_ne {i j : ι} (h : j ≠ i) (u : U) (q : List (ι × U)) : of i ((j, u) :: q) = of i q := by
  simp [of, h]

theorem of_enqueue_self (i : ι) (u : U) (q : List (ι × U)) : of i (enqueue i u q) = of i q ++ [u] := by
  rw [enqueue, of_append, of_cons_self, of_nil]

theorem of_enqueue_ne {i j : ι} (h : j ≠ i) (u : U) (q : List (ι × U)) : of i (enqueue j u q) = of i q := by
  rw [enqueue, of_append, of_cons_ne h, of_nil, List.append_nil]

/-- The item taken is the producer's oldest. -/
theorem of_dequeue_self {i : ι} {u : U} : ∀ {q q' : List (ι × U)}, dequeue i q = some (u, q') →
    of i q = u :: of i q'
  | [], _, h => by cases h
  | (j, v) :: q, q', h => by
    by_cases hj : j = i
    · subst hj
      simp only [dequeue, ↓reduceIte, Option.some.injEq, Prod.mk.injEq] at h
      obtain ⟨rfl, rfl⟩ := h
      exact of_cons_self j v q
    · simp only [dequeue, hj, ↓reduceIte, Option.map_eq_some_iff, Prod.mk.injEq, Prod.exists] at h
      obtain ⟨w, q₁, hd, rfl, rfl⟩ := h
      rw [of_cons_ne hj, of_cons_ne hj, of_dequeue_self hd]

theorem of_dequeue_ne {i j : ι} (hne : j ≠ i) {u : U} : ∀ {q q' : List (ι × U)}, dequeue j q = some (u, q') →
    of i q = of i q'
  | [], _, h => by cases h
  | (k, v) :: q, q', h => by
    by_cases hk : k = j
    · subst hk
      simp only [dequeue, ↓reduceIte, Option.some.injEq, Prod.mk.injEq] at h
      obtain ⟨rfl, rfl⟩ := h
      exact of_cons_ne hne v q
    · simp only [dequeue, hk, ↓reduceIte, Option.map_eq_some_iff, Prod.mk.injEq, Prod.exists] at h
      obtain ⟨w, q₁, hd, rfl, rfl⟩ := h
      have ih := of_dequeue_ne hne hd
      by_cases hi : k = i
      · subst hi; rw [of_cons_self, of_cons_self, ih]
      · rw [of_cons_ne hi, of_cons_ne hi, ih]

/-! ## One consumer -/

/-- The items that entered, in order; those waiting; the one in the consumer's hand; and those that left, in order. -/
structure Line (ι U : Type) where
  entered : List (ι × U)
  waiting : List (ι × U)
  inHand : Option (ι × U)
  left : List (ι × U)

namespace Line

inductive Step : Line ι U → Line ι U → Prop
  | enter (l : Line ι U) (i : ι) (u : U) :
      Step l { l with entered := l.entered ++ [(i, u)], waiting := enqueue i u l.waiting }
  | take (l : Line ι U) {i : ι} {u : U} {q : List (ι × U)} (hand : l.inHand = none)
      (hd : dequeue i l.waiting = some (u, q)) : Step l { l with waiting := q, inHand := some (i, u) }
  | leave (l : Line ι U) {x : ι × U} (hand : l.inHand = some x) :
      Step l { l with inHand := none, left := l.left ++ [x] }

/-- Nothing is lost, duplicated or reordered within a producer. -/
def Conserved (l : Line ι U) : Prop :=
  ∀ i, of i l.left ++ of i l.inHand.toList ++ of i l.waiting = of i l.entered

theorem Step.conserved {l l' : Line ι U} (h : Step l l') (hl : l.Conserved) : l'.Conserved := by
  intro i
  cases h with
  | enter j u =>
    have hi := hl i
    by_cases hj : j = i
    · subst hj
      rw [of_enqueue_self, ← List.append_assoc, hi, of_append, of_cons_self, of_nil]
    · rw [of_enqueue_ne hj, hi, of_append, of_cons_ne hj, of_nil, List.append_nil]
  | @take j u q hand hd =>
    have hi := hl i
    rw [hand, Option.toList_none, of_nil, List.append_nil] at hi
    by_cases hj : j = i
    · subst hj
      rw [of_dequeue_self hd] at hi
      rw [Option.toList_some, of_cons_self, of_nil, List.append_assoc, List.singleton_append, hi]
    · rw [of_dequeue_ne hj hd] at hi
      rw [Option.toList_some, of_cons_ne hj, of_nil, List.append_nil, hi]
  | leave hand =>
    have hi := hl i
    rw [hand, Option.toList_some] at hi
    rw [Option.toList_none, of_nil, List.append_nil, of_append, hi]

end Line

end ProducerQueue
