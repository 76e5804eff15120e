import CryptoHft.Lib.Json

/-!
# Reading price levels

A level is an array with the price and the size as strings at two neighbouring indices. Both strings go through
`stod`, which may throw.

* Reading one level is undefined exactly when the array is too short at the place where it is read
  (`defined_readLevel`).
* Reading a list of levels stops at the first one that does not convert, so it is undefined exactly when a level is too
  short and every level before it converts (`defined_readLevels`).
-/

namespace CryptoHft

open Outcome

/-- The conversions of the standard library: `stod` throws on `none`, `uint64` is the cast of a double. -/
structure Conversions (D : Type) where
  stod : String → Option D
  uint64 : Rat → Nat

instance {D : Type} : Inhabited (Conversions D) := ⟨⟨fun _ => none, fun _ => 0⟩⟩

variable {D : Type} (conv : Conversions D)

def Conversions.stodOf (s : String) : Outcome D :=
  match conv.stod s with
  | some x => .ok x
  | none => throws

/-- `get<uint64_t>()` stored in an `int64_t`. -/
def Conversions.timestampOf (j : Json) : Outcome Int := do
  let n ← j.getUint64 conv.uint64
  return Int.bmod n (2 ^ 64)

/-- One turn of a level loop: the price at index `i`, then the size at index `i + 1`. -/
def readLevel (i : Nat) (level : Json) : Outcome (D × D) := do
  let price ← conv.stodOf (← (← level.subscriptIndex i).getString)
  let size ← conv.stodOf (← (← level.subscriptIndex (i + 1)).getString)
  return (price, size)

/-- `for (const auto& level : levels) out.push_back({price, size})`. -/
def readLevels (levels : Json) : Outcome (List (D × D)) := each (readLevel conv 0) levels.items

/-! ## Levels that convert, and levels too short -/

/-- The element at index `i` is a string that `stod` converts. -/
def ConvertsAt (i : Nat) (elements : List Json) : Prop :=
  ∃ s x, elements[i]? = some (.string s) ∧ conv.stod s = some x

/-- Price and size are there and convert. -/
def Converts (i : Nat) (level : Json) : Prop :=
  ∃ elements, level = .array elements ∧ ConvertsAt conv i elements ∧ ConvertsAt conv (i + 1) elements

/-- Price and size of a level, from the strings at `i` and the next index. -/
def LevelIs (i : Nat) (level : Json) (p : D × D) : Prop :=
  ∃ elements price size, level = .array elements ∧ elements[i]? = some (.string price) ∧ conv.stod price = some p.1 ∧
    elements[i + 1]? = some (.string size) ∧ conv.stod size = some p.2

/-- The level ends before the price, or after a price that converts. -/
def Short (i : Nat) (level : Json) : Prop :=
  ∃ elements, level = .array elements ∧
    (elements.length ≤ i ∨ elements.length = i + 1 ∧ ConvertsAt conv i elements)

/-- No level is too short unless one before it fails to convert. -/
def LevelsInRange (i : Nat) (levels : List Json) : Prop :=
  ∀ pre level post, levels = pre ++ level :: post → (∀ l ∈ pre, Converts conv i l) → ¬ Short conv i level

/-! ## Reading a level -/

variable {conv}

@[simp] theorem defined_stodOf (s : String) : Defined (conv.stodOf s) := by
  unfold Conversions.stodOf
  cases conv.stod s <;> simp

theorem stodOf_eq_ok {s : String} {x : D} : conv.stodOf s = .ok x ↔ conv.stod s = some x := by
  unfold Conversions.stodOf
  cases conv.stod s <;> simp

@[simp] theorem defined_timestampOf (j : Json) : Defined (conv.timestampOf j) := by
  simp [Conversions.timestampOf, defined_bind]

/-- Reading one number of a level. -/
def readAt (conv : Conversions D) (i : Nat) (level : Json) : Outcome D := do
  conv.stodOf (← (← level.subscriptIndex i).getString)

theorem readLevel_eq (i : Nat) (level : Json) : readLevel conv i level = do
    let price ← readAt conv i level
    let size ← readAt conv (i + 1) level
    return (price, size) := by
  simp [readLevel, readAt, bind_assoc]

theorem defined_readAt {i : Nat} {level : Json} :
    Defined (readAt conv i level) ↔ ∀ elements, level = .array elements → i < elements.length := by
  cases level with
  | array elements =>
    by_cases h : i < elements.length
    · simp [readAt, Json.subscriptIndex, h, defined_bind]
    · simp [readAt, Json.subscriptIndex, h]
  | _ => simp [readAt, Json.subscriptIndex]

theorem readAt_eq_ok {i : Nat} {level : Json} {x : D} : readAt conv i level = .ok x ↔
    ∃ elements s, level = .array elements ∧ elements[i]? = some (.string s) ∧ conv.stod s = some x := by
  cases level with
  | array elements =>
    cases he : elements[i]? with
    | none => simp [readAt, Json.subscriptIndex, he]
    | some e => cases e <;> simp [readAt, Json.subscriptIndex, Json.getString, stodOf_eq_ok, he]
  | _ => simp [readAt, Json.subscriptIndex]

theorem returns_readAt {i : Nat} {level : Json} :
    (∃ x, readAt conv i level = .ok x) ↔ ∃ elements, level = .array elements ∧ ConvertsAt conv i elements := by
  simp only [readAt_eq_ok, ConvertsAt]
  constructor
  · rintro ⟨x, elements, s, hl, he, hs⟩
    exact ⟨elements, hl, s, x, he, hs⟩
  · rintro ⟨elements, hl, s, x, he, hs⟩
    exact ⟨x, elements, s, hl, he, hs⟩

/-- What reading a level returns. -/
theorem readLevel_eq_ok {i : Nat} {level : Json} {p : D × D} :
    readLevel conv i level = .ok p ↔ LevelIs conv i level p := by
  simp only [readLevel_eq, bind_eq_ok, readAt_eq_ok, pure_eq, Except.ok.injEq]
  constructor
  · rintro ⟨price, ⟨elements, s, rfl, hs, hprice⟩, size, ⟨_, t, he, ht, hsize⟩, rfl⟩
    cases he
    exact ⟨elements, s, t, rfl, hs, hprice, ht, hsize⟩
  · rintro ⟨elements, s, t, rfl, hs, hprice, ht, hsize⟩
    exact ⟨p.1, ⟨elements, s, rfl, hs, hprice⟩, p.2, ⟨elements, t, rfl, ht, hsize⟩, rfl⟩

theorem returns_readLevel {i : Nat} {level : Json} :
    (∃ p, readLevel conv i level = .ok p) ↔ Converts conv i level := by
  have hboth : (∃ p, readLevel conv i level = .ok p) ↔
      (∃ x, readAt conv i level = .ok x) ∧ ∃ y, readAt conv (i + 1) level = .ok y := by
    rw [readLevel_eq]
    cases readAt conv i level <;> cases readAt conv (i + 1) level <;> simp
  rw [hboth, returns_readAt, returns_readAt]
  constructor
  · rintro ⟨⟨es, rfl, h⟩, es', he, h'⟩
    cases he
    exact ⟨es, rfl, h, h'⟩
  · rintro ⟨es, rfl, h, h'⟩
    exact ⟨⟨es, rfl, h⟩, es, rfl, h'⟩

/-- Reading a level is undefined exactly when it is too short where it is read. -/
theorem defined_readLevel {i : Nat} {level : Json} : Defined (readLevel conv i level) ↔ ¬ Short conv i level := by
  have hsplit : Defined (readLevel conv i level) ↔ Defined (readAt conv i level) ∧
      ((∃ x, readAt conv i level = .ok x) → Defined (readAt conv (i + 1) level)) := by
    rw [readLevel_eq, defined_bind]
    simp [defined_bind]
  rw [hsplit, returns_readAt, defined_readAt, defined_readAt]
  constructor
  · rintro ⟨hfst, hsnd⟩ ⟨es, rfl, hlen | ⟨hlen, hconv⟩⟩
    · have := hfst es rfl
      omega
    · have := hsnd ⟨es, rfl, hconv⟩ es rfl
      omega
  · intro h
    refine ⟨?_, ?_⟩
    · rintro es rfl
      by_contra hlen
      exact h ⟨es, rfl, .inl (Nat.not_lt.1 hlen)⟩
    · rintro ⟨es, rfl, hconv⟩ es' he
      cases he
      by_contra hlen
      have hi : i < es.length := by
        obtain ⟨s, x, hs, -⟩ := hconv
        exact (List.getElem?_eq_some_iff.1 hs).1
      exact h ⟨es, rfl, .inr ⟨by omega, hconv⟩⟩

/-! ## Reading a list of levels -/

theorem returns_readLevels {levels : Json} :
    (∃ ls, readLevels conv levels = .ok ls) ↔ ∀ level ∈ levels.items, Converts conv 0 level := by
  unfold readLevels
  simp only [returns_each, returns_readLevel]

/-- **Reading levels is undefined** exactly when a level is too short and every level before it converts. -/
theorem defined_readLevels {levels : Json} :
    Defined (readLevels conv levels) ↔ LevelsInRange conv 0 levels.items := by
  unfold readLevels LevelsInRange
  simp only [defined_each, returns_readLevel, defined_readLevel]

end CryptoHft
