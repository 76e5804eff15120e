import CryptoHft.Infra.ConfigManager

/-!
# Looking up a key

The loop of `getNode` goes on until `getline` leaves an empty token. After the last segment the stream has met its end,
so `getline` leaves the token as it was, and the loop looks the last segment up again, in the node it has just reached,
until that fails.

* A key of segments joined by dots always gives a null (`getNode_segments`), so lookups read the node at the end of the
  path exactly when this is a null or is not there (`readsPath_iff`).
* With one more dot at the end the loop stops where it should (`getNode_trailing_dot`), and the empty key gives the root
  (`getNode_empty`).
-/

namespace CryptoHft

open CharStream

namespace ConfigManager

/-- A segment of a key. -/
def Segment (seg : String) : Prop := seg ≠ "" ∧ '.' ∉ seg.toList

instance (seg : String) : Decidable (Segment seg) := inferInstanceAs (Decidable (_ ∧ _))

/-- The node at the end of the path, null if there is none. -/
def pathNode (config : Yaml) (segs : List String) : Yaml := (config.nodeAt segs).getD .null

/-! ## One turn of the loop -/

variable {iss next : IStream} {token seg : String} {node child : Yaml}

theorem getNodeLoop_stop (h : getline '.' iss token = (next, "")) : getNodeLoop iss token node = node := by
  rw [getNodeLoop, h]
  simp

theorem getNodeLoop_missing (h : getline '.' iss token = (next, seg)) (hseg : seg ≠ "")
    (hl : node.lookup seg = none) : getNodeLoop iss token node = .null := by
  rw [getNodeLoop, h]
  simp only [hseg, ↓reduceIte]
  split
  · split
    · rfl
    · next heq => rw [hl] at heq; cases heq
  · rfl

theorem getNodeLoop_child (h : getline '.' iss token = (next, seg)) (hseg : seg ≠ "")
    (hl : node.lookup seg = some child) : getNodeLoop iss token node = getNodeLoop next seg child := by
  rw [getNodeLoop, h]
  simp only [hseg, ↓reduceIte, Yaml.isMap_of_lookup hl]
  split
  · next heq => rw [hl] at heq; cases heq
  · next heq => rw [hl] at heq; cases heq; rfl

/-! ## After the end of the key -/

/-- With the token kept, the loop descends until there is nothing under it. -/
theorem getNodeLoop_stuck (rest : List Char) (hseg : seg ≠ "") (node : Yaml) :
    getNodeLoop ⟨rest, false⟩ seg node = .null := by
  cases hl : node.lookup seg with
  | none => exact getNodeLoop_missing (getline_stuck rest seg) hseg hl
  | some child =>
    have hlt := Yaml.sizeOf_lookup_lt hl
    rw [getNodeLoop_child (getline_stuck rest seg) hseg hl]
    exact getNodeLoop_stuck rest hseg child
termination_by sizeOf node

/-- The last segment is looked up, and then looked up again. -/
theorem getNodeLoop_last (hseg : Segment seg) (token : String) (node : Yaml) :
    getNodeLoop (.ofString seg) token node = .null := by
  have hline : getline '.' (.ofString seg) token = (⟨[], false⟩, seg) := getline_end hseg.2 token
  cases hl : node.lookup seg with
  | none => exact getNodeLoop_missing hline hseg.1 hl
  | some child =>
    rw [getNodeLoop_child hline hseg.1 hl]
    exact getNodeLoop_stuck [] hseg.1 child

/-- A segment with a dot after it is looked up once. -/
theorem getNodeLoop_dot (hseg : Segment seg) (rest : String) (token : String) (node : Yaml) :
    getNodeLoop (.ofString (seg ++ "." ++ rest)) token node =
      (node.lookup seg).elim .null fun child => getNodeLoop (.ofString rest) seg child := by
  have hchars : (seg ++ "." ++ rest).toList = seg.toList ++ '.' :: rest.toList := by simp
  have hline : getline '.' (.ofString (seg ++ "." ++ rest)) token = (.ofString rest, seg) := by
    rw [IStream.ofString, hchars]
    exact getline_delim hseg.2 rest.toList token
  cases hl : node.lookup seg with
  | none => exact getNodeLoop_missing hline hseg.1 hl
  | some child => exact getNodeLoop_child hline hseg.1 hl

theorem getNodeLoop_segments {segs : List String} (hne : segs ≠ []) (hsegs : ∀ seg ∈ segs, Segment seg)
    (token : String) (node : Yaml) : getNodeLoop (.ofString (".".intercalate segs)) token node = .null := by
  induction segs generalizing token node with
  | nil => exact absurd rfl hne
  | cons seg segs ih =>
    obtain ⟨hseg, hsegs⟩ := List.forall_mem_cons.1 hsegs
    cases segs with
    | nil =>
      rw [String.intercalate_singleton]
      exact getNodeLoop_last hseg token node
    | cons seg' segs =>
      rw [String.intercalate_cons_cons, getNodeLoop_dot hseg]
      cases node.lookup seg with
      | none => rfl
      | some child => exact ih (by simp) hsegs seg child

/-- **A key of segments gives a null**, whatever the tree. -/
theorem getNode_segments (cm : ConfigManager) {segs : List String} (hne : segs ≠ [])
    (hsegs : ∀ seg ∈ segs, Segment seg) : cm.getNode (".".intercalate segs) = .null :=
  getNodeLoop_segments hne hsegs "" cm.config

/-! ## Keys that are found -/

theorem getNode_empty (cm : ConfigManager) : cm.getNode "" = cm.config :=
  getNodeLoop_stop rfl

/-- A dot after the last segment makes `getline` leave an empty token: the node at the end of the path is found. -/
theorem getNode_trailing_dot (cm : ConfigManager) {segs : List String} (hne : segs ≠ [])
    (hsegs : ∀ seg ∈ segs, Segment seg) : cm.getNode (".".intercalate segs ++ ".") = pathNode cm.config segs := by
  unfold getNode
  generalize cm.config = node
  generalize "" = token
  induction segs generalizing token node with
  | nil => exact absurd rfl hne
  | cons seg segs ih =>
    obtain ⟨hseg, hsegs⟩ := List.forall_mem_cons.1 hsegs
    have hnode : pathNode node (seg :: segs) =
        (node.lookup seg).elim .null fun child => pathNode child segs := by
      unfold pathNode
      rw [Yaml.nodeAt]
      cases node.lookup seg <;> rfl
    rw [hnode]
    cases segs with
    | nil =>
      have hdot := getNodeLoop_dot hseg "" token node
      rw [String.append_empty] at hdot
      rw [String.intercalate_singleton, hdot]
      refine congrArg (Option.elim (node.lookup seg) Yaml.null) (funext fun child => ?_)
      exact getNodeLoop_stop rfl
    | cons seg' segs =>
      have hkey : seg ++ "." ++ ".".intercalate (seg' :: segs) ++ "." =
          seg ++ "." ++ (".".intercalate (seg' :: segs) ++ ".") := String.append_assoc
      rw [String.intercalate_cons_cons, hkey, getNodeLoop_dot hseg]
      exact congrArg (Option.elim (node.lookup seg) Yaml.null) (funext fun child => ih (by simp) hsegs child seg)

/-! ## What the lookups read -/

variable {D : Type} {conv : YamlConversions D}

/-- The lookups of the key made of the segments read the node at the end of the path. -/
structure ReadsPath (conv : YamlConversions D) (cm : ConfigManager) (segs : List String) : Prop where
  node : cm.getNode (".".intercalate segs) = pathNode cm.config segs
  has : cm.has (".".intercalate segs) = true ↔ ∃ node, cm.config.nodeAt segs = some node ∧ node ≠ .null
  scalar : ∀ T, getScalar conv T cm (".".intercalate segs) =
    readScalar conv T (".".intercalate segs) (pathNode cm.config segs)
  strings : getStringVector conv cm (".".intercalate segs) =
    orDefault (readStrings conv (".".intercalate segs) (pathNode cm.config segs)) []

theorem readsPath_of_node {cm : ConfigManager} {segs : List String}
    (h : cm.getNode (".".intercalate segs) = pathNode cm.config segs) : ReadsPath conv cm segs := by
  refine ⟨h, ?_, fun T => by rw [getScalar, h], by rw [getStringVector, h]⟩
  rw [ConfigManager.has, h, pathNode, Bool.not_eq_true', ← Bool.not_eq_true, Yaml.isNull_iff]
  cases cm.config.nodeAt segs <;> simp

/-- **Lookups read the path** exactly when the path leads to a null or to nothing. -/
theorem readsPath_iff (conv : YamlConversions D) (cm : ConfigManager) (segs : List String) (hne : segs ≠ [])
    (hsegs : ∀ seg ∈ segs, Segment seg) : ReadsPath conv cm segs ↔ pathNode cm.config segs = .null := by
  have hnull := getNode_segments cm hne hsegs
  constructor
  · intro h
    rw [← h.node, hnull]
  · intro h
    exact readsPath_of_node (hnull.trans h.symm)

section Example

def exampleConversions : YamlConversions ℤ := ⟨fun _ => none, fun _ => none, fun _ => none, none⟩

/-- A file with one exchange and one strategy. -/
def exampleConfig : ConfigManager where
  config := .map
    [(.scalar "exchange", .map [(.scalar "binance", .map [(.scalar "api_key", .scalar "test_api_key_123")])]),
      (.scalar "trading", .map [(.scalar "strategy", .scalar "momentum")])]
  configPath := "config.yaml"

theorem missing_key_readsPath : ReadsPath exampleConversions exampleConfig ["nonexistent", "key"] :=
  (readsPath_iff exampleConversions exampleConfig ["nonexistent", "key"] (by simp) (by decide)).2 rfl

/-- The key is there, and is not found. -/
theorem present_key_not_found :
    pathNode exampleConfig.config ["exchange", "binance", "api_key"] = .scalar "test_api_key_123" ∧
      exampleConfig.getNode (".".intercalate ["exchange", "binance", "api_key"]) = .null ∧
      getString exampleConversions exampleConfig "exchange.binance.api_key" =
        .error (.runtimeError "Key not found or not a string: exchange.binance.api_key") ∧
      ¬ ReadsPath exampleConversions exampleConfig ["exchange", "binance", "api_key"] := by
  have hpath : pathNode exampleConfig.config ["exchange", "binance", "api_key"] = .scalar "test_api_key_123" := rfl
  have hnull : exampleConfig.getNode (".".intercalate ["exchange", "binance", "api_key"]) = .null :=
    getNode_segments exampleConfig (by simp) (by decide)
  refine ⟨hpath, hnull, ?_, fun h => ?_⟩
  · have hkey : ".".intercalate ["exchange", "binance", "api_key"] = "exchange.binance.api_key" := by decide
    rw [getString, getScalar, ← hkey, hnull]
    rfl
  · rw [h.node, hpath] at hnull
    cases hnull

end Example

end ConfigManager

end CryptoHft
