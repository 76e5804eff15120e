import CryptoHft.Infra.Lookup

/-!
# Loads that fail

A load that returns false should leave the manager as it was. `loadFromFile` stores the path before it reads the file,
and `loadFromString` stores the tree before it converts the keys for the log. So a failing call is unseen exactly when
the first was given the stored path, or the second a text that does not parse or that gives the tree already there
(`unseen_iff`); over runs of calls: `run_unseen_iff`.
-/

namespace CryptoHft

namespace ConfigManager

variable {D : Type} (conv : YamlConversions D)

/-- A call, with the files that `YAML::LoadFile` finds at that moment, or what the text parses to. -/
inductive Call
  | loadFromFile (load : String → Option Yaml) (path : String)
  | loadFromString (parsed : Option Yaml)
  | reload (load : String → Option Yaml)

def call (cm : ConfigManager) : Call → ConfigManager
  | .loadFromFile load path => (cm.loadFromFile load path).1
  | .loadFromString parsed => (cm.loadFromString conv parsed).1
  | .reload load => cm.reload load

/-- The manager after a list of calls on a new one. -/
def run (calls : List Call) : ConfigManager := calls.foldl (call conv) create

/-- The call is a load that returns false. -/
def Fails (cm : ConfigManager) : Call → Prop
  | .loadFromFile load path => (cm.loadFromFile load path).2 = false
  | .loadFromString parsed => (cm.loadFromString conv parsed).2 = false
  | .reload _ => False

/-- The file that a reload reads. -/
def reloadPath (cm : ConfigManager) : Option String := if cm.configPath = "" then none else some cm.configPath

/-- Nothing that a caller can observe tells the managers apart: every lookup gives the same, and a reload reads the same
file, to the same effect on every lookup. -/
structure Unseen (conv : YamlConversions D) (cm cm' : ConfigManager) : Prop where
  node : ∀ key, cm'.getNode key = cm.getNode key
  has : ∀ key, cm'.has key = cm.has key
  scalar : ∀ T key, getScalar conv T cm' key = getScalar conv T cm key
  strings : ∀ key, getStringVector conv cm' key = getStringVector conv cm key
  reads : cm'.reloadPath = cm.reloadPath
  reloads : ∀ load key, (cm'.reload load).getNode key = (cm.reload load).getNode key

/-! ## What a failing call leaves -/

variable {conv} {cm cm' : ConfigManager}

theorem Unseen.refl (cm : ConfigManager) : Unseen conv cm cm :=
  ⟨fun _ => rfl, fun _ => rfl, fun _ _ => rfl, fun _ => rfl, rfl, fun _ _ => rfl⟩

/-- The lookups tell different trees apart, and a reload different paths. -/
theorem unseen_iff_eq : Unseen conv cm cm' ↔ cm' = cm := by
  constructor
  · intro h
    have hconfig : cm'.config = cm.config := by rw [← getNode_empty, h.node, getNode_empty]
    have hpath : cm'.configPath = cm.configPath := by
      have hreads := h.reads
      unfold reloadPath at hreads
      split at hreads <;> split at hreads <;> simp_all
    cases cm
    cases cm'
    cases hconfig
    cases hpath
    rfl
  · rintro rfl
    exact .refl cm'

/-- The state and the argument from which a failing call changes nothing. -/
def Harmless (cm : ConfigManager) : Call → Prop
  | .loadFromFile _ path => path = cm.configPath
  | .loadFromString parsed => ∀ config, parsed = some config → config = cm.config
  | .reload _ => True

theorem loadFromFile_of_fails {load : String → Option Yaml} {path : String}
    (h : (cm.loadFromFile load path).2 = false) : (cm.loadFromFile load path).1 = { cm with configPath := path } := by
  unfold loadFromFile at h ⊢
  cases hl : load path with
  | some config => rw [hl] at h; cases h
  | none => rfl

theorem loadFromString_fst (parsed : Option Yaml) :
    (cm.loadFromString conv parsed).1 = { cm with config := parsed.getD cm.config } := by
  unfold loadFromString
  cases parsed with
  | none => rfl
  | some config => cases config <;> rfl

/-- **A failing call goes unseen** exactly when it is harmless. -/
theorem unseen_iff {c : Call} (h : Fails conv cm c) : Unseen conv cm (cm.call conv c) ↔ Harmless cm c := by
  rw [unseen_iff_eq]
  cases c with
  | loadFromFile load path =>
    rw [call, loadFromFile_of_fails h, Harmless]
    constructor
    · intro he
      exact congrArg configPath he
    · rintro rfl
      rfl
  | loadFromString parsed =>
    rw [call, loadFromString_fst, Harmless]
    cases parsed with
    | none => exact iff_of_true rfl fun config hc => by cases hc
    | some config =>
      constructor
      · rintro he config' ⟨⟩
        exact congrArg ConfigManager.config he
      · intro hc
        rw [hc config rfl]
        rfl
  | reload => exact h.elim

/-- **In a run every failing load goes unseen** exactly when every one is harmless. -/
theorem run_unseen_iff (conv : YamlConversions D) (calls : List Call) :
    (∀ pre c post, calls = pre ++ c :: post → Fails conv (run conv pre) c →
        Unseen conv (run conv pre) (run conv (pre ++ [c]))) ↔
      ∀ pre c post, calls = pre ++ c :: post → Fails conv (run conv pre) c → Harmless (run conv pre) c := by
  have hlast : ∀ pre c, run conv (pre ++ [c]) = (run conv pre).call conv c := by
    intro pre c
    rw [run, List.foldl_append]
    rfl
  simp only [hlast]
  constructor
  · intro h pre c post he hf
    exact (unseen_iff hf).1 (h pre c post he hf)
  · intro h pre c post he hf
    exact (unseen_iff hf).2 (h pre c post he hf)

section Example

/-- The files: one of them is readable. -/
def exampleFiles (path : String) : Option Yaml := if path = "config.yaml" then some exampleConfig.config else none

/-- A file that is not there takes the place of the one that a reload reads, and a map with a sequence as a key the
place of the tree. -/
theorem failed_loads_seen :
    let loaded := run exampleConversions [.loadFromFile exampleFiles "config.yaml"]
    let badKeys := Yaml.map [(.sequence [], .scalar "x")]
    (Fails exampleConversions loaded (.loadFromFile exampleFiles "other.yaml") ∧
      ¬ Unseen exampleConversions loaded (loaded.call exampleConversions (.loadFromFile exampleFiles "other.yaml"))) ∧
    (Fails exampleConversions loaded (.loadFromString (some badKeys)) ∧
      ¬ Unseen exampleConversions loaded (loaded.call exampleConversions (.loadFromString (some badKeys)))) := by
  refine ⟨⟨rfl, fun h => absurd h.reads (by decide)⟩, rfl, fun h => ?_⟩
  have hroot := h.node ""
  rw [getNode_empty, getNode_empty] at hroot
  cases hroot

end Example

end ConfigManager

end CryptoHft
