import CryptoHft.Lib.Outcome
import Mathlib.Algebra.Order.Ring.Int

/-!
# JSON values and their accesses

A parsed document, with the accesses of the C++ library in use.

* The `const` subscripts throw on a value of another type, and are undefined for a key that is not there or an index
  out of range (`defined_subscriptKey_bind`); `contains` is false on everything but an object.
* A conversion throws on a value of another type, and is never undefined.
* A loop over a value visits the elements of an array, the values of an object, nothing of a null, and a primitive
  value itself (`items`).
-/

inductive Json
  | null
  | boolean (b : Bool)
  | number_unsigned (n : Nat)
  | number_integer (i : Int)
  | number_float (x : Rat)
  | string (s : String)
  | array (elements : List Json)
  | object (members : List (String × Json))

namespace Json

open Outcome

def lookup (key : String) : Json → Option Json
  | object members => members.lookup key
  | _ => none

def contains (key : String) (j : Json) : Bool := (j.lookup key).isSome

/-- The `const` subscript with a key. -/
def subscriptKey (key : String) : Json → Outcome Json
  | object members =>
    match members.lookup key with
    | some value => .ok value
    | none => .error .undefined
  | _ => throws

/-- The `const` subscript with an index. -/
def subscriptIndex (index : Nat) : Json → Outcome Json
  | array elements =>
    match elements[index]? with
    | some value => .ok value
    | none => .error .undefined
  | _ => throws

/-- What a subscript with a key on a mutable value reads: a key that is not there is inserted with a null. -/
def mutableKey (key : String) : Json → Outcome Json
  | object members => .ok ((members.lookup key).getD null)
  | null => .ok null
  | _ => throws

/-- What a subscript with an index on a mutable value reads: an array that is too short is filled up with nulls. -/
def mutableIndex (index : Nat) : Json → Outcome Json
  | array elements => .ok (elements[index]?.getD null)
  | null => .ok null
  | _ => throws

def getString : Json → Outcome String
  | string s => .ok s
  | _ => throws

def getBool : Json → Outcome Bool
  | boolean b => .ok b
  | _ => throws

/-- `get<uint64_t>`: `cast` is the conversion of a double, the one of an integer wraps. -/
def getUint64 (cast : Rat → Nat) : Json → Outcome Nat
  | number_unsigned n => .ok n
  | number_integer i => .ok (i % 2 ^ 64).toNat
  | number_float x => .ok (cast x)
  | _ => throws

def equalsString (s : String) : Json → Bool
  | string s' => s' == s
  | _ => false

/-- The text of a string. -/
def asString : Json → Option String
  | string s => some s
  | _ => none

/-- The texts of an array of strings. -/
def asStrings : Json → Option (List String)
  | array elements => elements.mapM asString
  | _ => none

/-- `is_array() && size() >= n`. -/
def isArrayOf (n : Nat) : Json → Bool
  | array elements => n ≤ elements.length
  | _ => false

/-- The values that a range-based `for` visits. -/
def items : Json → List Json
  | null => []
  | array elements => elements
  | object members => members.map Prod.snd
  | j => [j]

/-! ## Accesses that are defined -/

theorem subscriptKey_of_lookup {key : String} {j value : Json} (h : j.lookup key = some value) :
    j.subscriptKey key = .ok value := by
  cases j <;> simp_all [lookup, subscriptKey]

theorem subscriptKey_eq_ok {key : String} {j value : Json} :
    j.subscriptKey key = .ok value ↔ j.lookup key = some value := by
  cases j with
  | object members => cases h : members.lookup key <;> simp [subscriptKey, lookup, h]
  | _ => simp [subscriptKey, lookup]

theorem subscriptIndex_eq_ok {index : Nat} {j value : Json} :
    j.subscriptIndex index = .ok value ↔ ∃ elements, j = .array elements ∧ elements[index]? = some value := by
  cases j with
  | array elements => cases h : elements[index]? <;> simp [subscriptIndex, h]
  | _ => simp [subscriptIndex]

theorem getString_eq_ok {j : Json} {s : String} : j.getString = .ok s ↔ j = .string s := by
  cases j <;> simp [getString]

theorem toOption_subscriptKey (key : String) (j : Json) : (j.subscriptKey key).toOption = j.lookup key := by
  cases j with
  | object members => cases h : members.lookup key <;> simp [subscriptKey, lookup, h]
  | _ => rfl

theorem toOption_getString (j : Json) : j.getString.toOption = j.asString := by
  cases j <;> rfl

theorem mutableKey_of_lookup {key : String} {j value : Json} (h : j.lookup key = some value) :
    j.mutableKey key = .ok value := by
  cases j <;> simp_all [lookup, mutableKey]

theorem contains_eq_true {key : String} {j : Json} : j.contains key = true ↔ ∃ value, j.lookup key = some value :=
  Option.isSome_iff_exists

theorem object_of_lookup {key : String} {j value : Json} (h : j.lookup key = some value) :
    ∃ members, j = .object members := by
  cases j with
  | object members => exact ⟨members, rfl⟩
  | _ => cases h

theorem asStrings_map (texts : List String) : (array (texts.map string)).asStrings = some texts := by
  induction texts with
  | nil => rfl
  | cons s texts ih =>
    simp only [asStrings, List.map_cons, List.mapM_cons, asString] at ih ⊢
    rw [ih]
    rfl

/-- Going on after a subscript of an object is defined when the key is there and what follows is defined. -/
theorem defined_subscriptKey_bind {β : Type} {key : String} {members : List (String × Json)} {f : Json → Outcome β} :
    Defined ((object members).subscriptKey key >>= f) ↔
      ∃ value, (object members).lookup key = some value ∧ Defined (f value) := by
  cases h : members.lookup key <;> simp [subscriptKey, lookup, h]

theorem defined_getString_bind {β : Type} {j : Json} {f : String → Outcome β} :
    Defined (j.getString >>= f) ↔ ∀ s, j = .string s → Defined (f s) := by
  cases j <;> simp [getString]

@[simp] theorem defined_getString (j : Json) : Defined j.getString := by
  cases j <;> simp [getString]

@[simp] theorem defined_getUint64 (cast : Rat → Nat) (j : Json) : Defined (j.getUint64 cast) := by
  cases j <;> simp [getUint64]

end Json
