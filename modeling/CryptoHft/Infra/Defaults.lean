import CryptoHft.Infra.Keys

/-!
# Getters with a default

A getter with a default should return the value read when the key resolves to a node of the right shape that converts,
and the default in every other case. A key resolves to the node at the path of its segments, up to the first empty one
(`resolved`); `getNode` finds this node only if there is an empty one (`getNode_resolved`).

* The typed getters return the default for every key without an empty segment, and what they should for the others
  (`getScalarOr_eq`).
* `get<T>` asks `has` first and then throws: on a key that is there with a value that does not convert, it throws in
  spite of the default (`getOr_eq_iff`).
* `getStringVector` with a default never gets to see an error, so the default is never used (`getStringVectorOr_eq`).
-/

namespace CryptoHft

namespace ConfigManager

variable {D : Type} (conv : YamlConversions D)

/-- The value of a scalar that converts. -/
def scalarValue (T : ScalarType) : Yaml → Option (T.Value D)
  | .scalar text => T.convert conv text
  | _ => none

/-- The elements of a sequence that all convert. -/
def stringsValue (node : Yaml) : Option (List String) := node.asStrings conv.nullText

/-- The node at the path of the key: its segments, up to the first empty one. -/
def resolved (cm : ConfigManager) (key : String) : Yaml := pathNode cm.config ((segments key).takeWhile (· ≠ ""))

/-- The getters with a default return the value of the node that the key resolves to, or the default; the template agrees
with the getter of its type. -/
structure MeetsDefault (T : ScalarType) (cm : ConfigManager) (key : String) (defaultValue : T.Value D)
    (defaultStrings : List String) : Prop where
  scalar : getScalarOr conv T cm key defaultValue = .ok ((scalarValue conv T (cm.resolved key)).getD defaultValue)
  template : getOr conv T cm key defaultValue = .ok ((scalarValue conv T (cm.resolved key)).getD defaultValue)
  agrees : getOr conv T cm key defaultValue = getScalarOr conv T cm key defaultValue
  strings : getStringVectorOr conv cm key defaultStrings =
    .ok ((stringsValue conv (cm.resolved key)).getD defaultStrings)

/-! ## The readers -/

variable {conv} {T : ScalarType} {cm : ConfigManager} {key : String}

theorem readScalar_some {node : Yaml} {value : T.Value D} (h : scalarValue conv T node = some value) :
    readScalar conv T key node = .ok value := by
  cases node with
  | scalar text => rw [readScalar, show T.convert conv text = some value from h]
  | _ => cases h

theorem readScalar_none (key : String) {node : Yaml} (h : scalarValue conv T node = none) :
    ∃ e, readScalar conv T key node = .error e := by
  cases node with
  | scalar text => exact ⟨.badConversion, by rw [readScalar, show T.convert conv text = none from h]⟩
  | _ => exact ⟨_, rfl⟩

theorem orDefault_readStrings (node : Yaml) :
    orDefault (readStrings conv key node) [] = .ok ((stringsValue conv node).getD []) := by
  unfold readStrings stringsValue
  cases node with
  | sequence elements => cases (Yaml.sequence elements).asStrings conv.nullText <;> rfl
  | _ => rfl

theorem get_eq (T : ScalarType) : get conv T cm key = getScalar conv T cm key := by
  cases T <;> rfl

/-! ## The getters -/

theorem getNode_resolved (cm : ConfigManager) (key : String) :
    cm.getNode key = if "" ∈ segments key then cm.resolved key else .null :=
  getNodeLoop_eq key.toList "" cm.config

/-- The typed getters meet the contract for the node that `getNode` returns. -/
theorem getScalarOr_eq (conv : YamlConversions D) (cm : ConfigManager) (key : String) (defaultValue : T.Value D) :
    getScalarOr conv T cm key defaultValue = .ok ((scalarValue conv T (cm.getNode key)).getD defaultValue) := by
  rw [getScalarOr, getScalar]
  cases hv : scalarValue conv T (cm.getNode key) with
  | some value => rw [readScalar_some hv]; rfl
  | none =>
    obtain ⟨e, he⟩ := readScalar_none key hv
    rw [he]; rfl

theorem getOr_of_null (conv : YamlConversions D) (h : cm.getNode key = .null) (defaultValue : T.Value D) :
    getOr conv T cm key defaultValue = .ok defaultValue := by
  have hhas : ¬ cm.has key = true := by
    rw [ConfigManager.has, h]
    exact Bool.false_ne_true
  rw [getOr, if_neg hhas]

theorem getOr_of_ne_null (h : cm.getNode key ≠ .null) (defaultValue : T.Value D) :
    getOr conv T cm key defaultValue = readScalar conv T key (cm.getNode key) := by
  have hhas : cm.has key = true := by rwa [ConfigManager.has, Bool.not_eq_true', ← Bool.not_eq_true, Yaml.isNull_iff]
  rw [getOr, if_pos hhas, get_eq]
  rfl

/-- The template meets the contract for the node that `getNode` returns, unless this is there and does not convert. -/
theorem getOr_eq_iff (conv : YamlConversions D) (cm : ConfigManager) (key : String) (defaultValue : T.Value D) :
    getOr conv T cm key defaultValue = .ok ((scalarValue conv T (cm.getNode key)).getD defaultValue) ↔
      (cm.getNode key ≠ .null → (scalarValue conv T (cm.getNode key)).isSome) := by
  by_cases hnull : cm.getNode key = .null
  · rw [getOr_of_null conv hnull, hnull]
    exact iff_of_true rfl fun h => absurd rfl h
  · rw [getOr_of_ne_null hnull]
    cases hv : scalarValue conv T (cm.getNode key) with
    | some value => rw [readScalar_some hv]; simp
    | none =>
      obtain ⟨e, he⟩ := readScalar_none key hv
      rw [he]
      simp [hnull]

theorem getStringVectorOr_eq (conv : YamlConversions D) (cm : ConfigManager) (key : String)
    (defaultStrings : List String) :
    getStringVectorOr conv cm key defaultStrings = .ok ((stringsValue conv (cm.getNode key)).getD []) := by
  rw [getStringVectorOr, getStringVector, orDefault_readStrings, orDefault]

/-- **The getters with a default keep their contract** on a key with an empty segment exactly when what the key resolves
to is a null or has a scalar that converts (for the template), and is a sequence that converts or the default is empty
(for the string vector); on any other key exactly when the value to return is the default (for the scalars), or the empty
vector. -/
theorem meetsDefault_iff (conv : YamlConversions D) (T : ScalarType) (cm : ConfigManager) (key : String)
    (defaultValue : T.Value D) (defaultStrings : List String) :
    MeetsDefault conv T cm key defaultValue defaultStrings ↔
      if "" ∈ segments key then
        (cm.resolved key ≠ .null → (scalarValue conv T (cm.resolved key)).isSome) ∧
          ((stringsValue conv (cm.resolved key)).isSome ∨ defaultStrings = [])
      else
        (scalarValue conv T (cm.resolved key)).getD defaultValue = defaultValue ∧
          (stringsValue conv (cm.resolved key)).getD defaultStrings = [] := by
  have hnode := getNode_resolved cm key
  split
  · next hempty =>
    rw [if_pos hempty] at hnode
    have htemplate := getOr_eq_iff conv cm key defaultValue
    have hscalar := getScalarOr_eq conv cm key defaultValue
    have hstrings := getStringVectorOr_eq conv cm key defaultStrings
    rw [hnode] at htemplate hscalar hstrings
    have hvector : (stringsValue conv (cm.resolved key)).getD [] =
          (stringsValue conv (cm.resolved key)).getD defaultStrings ↔
        (stringsValue conv (cm.resolved key)).isSome ∨ defaultStrings = [] := by
      cases stringsValue conv (cm.resolved key) <;> simp [eq_comm]
    rw [← htemplate, ← hvector]
    constructor
    · intro h
      exact ⟨h.template, Except.ok.inj (hstrings.symm.trans h.strings)⟩
    · rintro ⟨ht, hs⟩
      exact ⟨hscalar, ht, ht.trans hscalar.symm, hstrings.trans (congrArg Except.ok hs)⟩
  · next hempty =>
    rw [if_neg hempty] at hnode
    have htemplate := getOr_of_null conv hnode defaultValue
    have hscalar := getScalarOr_eq conv cm key defaultValue
    have hstrings := getStringVectorOr_eq conv cm key defaultStrings
    rw [hnode] at hscalar hstrings
    constructor
    · intro h
      exact ⟨(Except.ok.inj (hscalar.symm.trans h.scalar)).symm, (Except.ok.inj (hstrings.symm.trans h.strings)).symm⟩
    · rintro ⟨hv, hs⟩
      have hvalue : Except.ok defaultValue =
          (.ok ((scalarValue conv T (cm.resolved key)).getD defaultValue) : Except ConfigError _) :=
        congrArg Except.ok hv.symm
      exact ⟨hscalar.trans hvalue, htemplate.trans hvalue, htemplate.trans hscalar.symm,
        hstrings.trans (congrArg Except.ok hs.symm)⟩

section Example

/-- A value that is there and not returned, a default that is lost, and an exception in spite of a default. -/
theorem defaults_not_met :
    exampleConfig.resolved "trading.strategy" = .scalar "momentum" ∧
      getStringOr exampleConversions exampleConfig "trading.strategy" "DEFAULT" = .ok "DEFAULT" ∧
      exampleConfig.resolved "missing" = .null ∧
      getStringVectorOr exampleConversions exampleConfig "missing" ["x"] = .ok [] ∧
      exampleConfig.resolved "trading." = .map [(.scalar "strategy", .scalar "momentum")] ∧
      getOr exampleConversions .int exampleConfig "trading." (42 : ℤ) =
        .error (.runtimeError "Key not found or not an integer: trading.") ∧
      ¬ MeetsDefault exampleConversions .string exampleConfig "trading.strategy" "DEFAULT" [] ∧
      ¬ MeetsDefault exampleConversions .string exampleConfig "missing" "y" ["x"] ∧
      ¬ MeetsDefault exampleConversions .int exampleConfig "trading." (42 : ℤ) [] := by
  have hstrategy : exampleConfig.getNode "trading.strategy" = .null :=
    getNode_segments exampleConfig (List.cons_ne_nil "trading" ["strategy"]) (by decide)
  have hmissing : exampleConfig.getNode "missing" = .null :=
    getNode_segments exampleConfig (List.cons_ne_nil "missing" []) (by decide)
  have htrading : exampleConfig.getNode "trading." = .map [(.scalar "strategy", .scalar "momentum")] :=
    getNode_trailing_dot exampleConfig (List.cons_ne_nil "trading" []) (by decide)
  have hstring : getStringOr exampleConversions exampleConfig "trading.strategy" "DEFAULT" = .ok "DEFAULT" := by
    refine (getScalarOr_eq (T := .string) exampleConversions exampleConfig "trading.strategy" "DEFAULT").trans ?_
    rw [hstrategy]
    rfl
  have hvector : getStringVectorOr exampleConversions exampleConfig "missing" ["x"] = .ok [] := by
    rw [getStringVectorOr_eq, hmissing]
    rfl
  have hint : getOr exampleConversions .int exampleConfig "trading." (42 : ℤ) =
      .error (.runtimeError "Key not found or not an integer: trading.") := by
    have hnull : exampleConfig.getNode "trading." ≠ .null := by rw [htrading]; exact nofun
    refine (getOr_of_ne_null hnull _).trans ?_
    rw [htrading]
    rfl
  refine ⟨rfl, hstring, rfl, hvector, rfl, hint, fun h => ?_, fun h => ?_, fun h => ?_⟩
  · have hs : (Except.ok "DEFAULT" : Except ConfigError String) = .ok "momentum" := hstring.symm.trans h.scalar
    exact absurd (Except.ok.inj hs) (by decide)
  · have hs := hvector.symm.trans h.strings
    exact absurd (Except.ok.inj hs) (by decide)
  · have ht := hint.symm.trans h.template
    cases ht

end Example

end ConfigManager

end CryptoHft
