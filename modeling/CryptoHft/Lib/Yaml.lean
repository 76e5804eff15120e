import Mathlib.Tactic.Common

/-!
# YAML trees and their accesses

A parsed document, with the accesses of the C++ library in use: the lookup of a key in a map, which compares the text of
scalar keys and takes the first match, and the conversions of nodes to values.

* `nodeAt` follows a path of keys from map to map; a lookup leads to a smaller node (`sizeOf_lookup_lt`).
* What text the library reads off a null, and how it converts a text to a number or a truth value, are parameters.
-/

inductive Yaml
  | null
  | scalar (text : String)
  | sequence (elements : List Yaml)
  | map (pairs : List (Yaml × Yaml))

namespace Yaml

def isNull : Yaml → Bool
  | null => true
  | _ => false

def isMap : Yaml → Bool
  | map _ => true
  | _ => false

/-- A key of a map is compared with a string if it converts to one. -/
def equals (key : String) : Yaml → Bool
  | scalar text => text == key
  | _ => false

/-- `node[key]`, where it is defined. -/
def lookup (key : String) : Yaml → Option Yaml
  | map pairs => (pairs.find? fun pair => pair.1.equals key).map Prod.snd
  | _ => none

/-- The node at the end of a path of keys. -/
def nodeAt : Yaml → List String → Option Yaml
  | node, [] => some node
  | node, key :: keys => (node.lookup key).bind fun child => child.nodeAt keys

/-- `as<std::string>()`: `nullText` is what a null converts to, if it does. -/
def asString (nullText : Option String) : Yaml → Option String
  | scalar text => some text
  | null => nullText
  | _ => none

/-- `as<std::vector<std::string>>()` -/
def asStrings (nullText : Option String) : Yaml → Option (List String)
  | sequence elements => elements.mapM (asString nullText)
  | _ => none

theorem isNull_iff {node : Yaml} : node.isNull = true ↔ node = null := by
  cases node <;> simp [isNull]

/-- A node that a lookup leads to is smaller. -/
theorem sizeOf_lookup_lt {key : String} {node child : Yaml} (h : node.lookup key = some child) :
    sizeOf child < sizeOf node := by
  cases node with
  | map pairs =>
    obtain ⟨pair, hf, rfl⟩ := Option.map_eq_some_iff.1 h
    have hpair := List.sizeOf_lt_of_mem (List.mem_of_find?_eq_some hf)
    obtain ⟨k, v⟩ := pair
    simp only [Prod.mk.sizeOf_spec, map.sizeOf_spec] at hpair ⊢
    omega
  | _ => cases h

theorem isMap_of_lookup {key : String} {node child : Yaml} (h : node.lookup key = some child) : node.isMap = true := by
  cases node with
  | map pairs => rfl
  | _ => cases h

end Yaml
