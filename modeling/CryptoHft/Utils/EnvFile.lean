import CryptoHft.Lib.CharStream
import CryptoHft.Lib.OrderedMap

/-!
# The environment file

`load_env_file` reads a file line by line. A line that is empty, a comment or without `=` is skipped; any other is split
at its first `=`, the quotes around the value are stripped, and `setenv` puts the pair into the environment, up to the
first NUL of either part.

* What the environment holds afterwards is what the last line for each name left (`getenv_loadLines`).
* The strip takes a single quote for two, and computes its length minus 2. So the file leaves exactly its assignments,
  without a wrap of that length, when no value is a single quote and no NUL is left to cut off (`loads_iff`).
-/

namespace CryptoHft

open Std OrderedMap CharStream

/-! ## The environment -/

def nul : Char := Char.ofNat 0

def IsCString (s : String) : Prop := nul ∉ s.toList

instance (s : String) : Decidable (IsCString s) := inferInstanceAs (Decidable (_ ∉ _))

/-- What is read through `c_str()`: the text up to its first NUL. -/
def cString (s : String) : String := String.ofList (s.toList.takeWhile (· ≠ nul))

theorem isCString_cString (s : String) : IsCString (cString s) := by
  intro h
  rw [cString, String.toList_ofList] at h
  have hne := List.mem_takeWhile_imp h
  simp at hne

theorem cString_of_isCString {s : String} (h : IsCString s) : cString s = s := by
  have hall : ∀ c ∈ s.toList, decide (c ≠ nul) = true := fun c hc => decide_eq_true fun he => h (he ▸ hc)
  rw [cString, List.takeWhile_eq_self_iff.2 hall, String.ofList_toList]

/-- Names and values are C strings. -/
structure Environment where
  vars : ExtTreeMap String String compare
  cStrings : ∀ name value : String, vars[name]? = some value → IsCString name ∧ IsCString value

namespace Environment

def empty : Environment := ⟨∅, by simp⟩

def getenv (env : Environment) (name : String) : Option String := env.vars[name]?

/-- `setenv` fails on such a name. -/
def Rejects (name : String) : Prop := cString name = "" ∨ '=' ∈ (cString name).toList

instance (name : String) : Decidable (Rejects name) := inferInstanceAs (Decidable (_ ∨ _))

/-- `setenv(name.c_str(), value.c_str(), 1)` -/
def setenv (env : Environment) (name value : String) : Environment :=
  if Rejects name then env
  else
    { vars := env.vars.insert (cString name) (cString value)
      cStrings := by
        intro name' value' h
        by_cases hn : cString name = name'
        · subst hn
          rw [ExtTreeMap.getElem?_insert_self] at h
          cases h
          exact ⟨isCString_cString name, isCString_cString value⟩
        · rw [getElem?_insert_ne _ _ hn] at h
          exact env.cStrings name' value' h }

end Environment

/-! ## Loading -/

/-- `a - b` of type `size_t`. -/
def sizeSub (a b : Nat) : Nat := if b ≤ a then a - b else a + 2 ^ 64 - b

/-- `s.substr(pos, n)` -/
def substr (s : String) (pos n : Nat) : String := String.ofList ((s.toList.drop pos).take n)

/-- Key and value of a line that is not skipped. -/
def splitLine (line : String) : Option (String × String) :=
  if line = "" ∨ line.toList.head? = some '#' then none
  else
    match line.toList.findIdx? (· = '=') with
    | none => none
    | some pos => some (substr line 0 pos, substr line (pos + 1) line.length)

/-- The value begins with a quote and ends with one. -/
def Quoted (value : String) : Prop :=
  value ≠ "" ∧ value.toList.head? = some '"' ∧ value.toList.getLast? = some '"'

instance (value : String) : Decidable (Quoted value) := inferInstanceAs (Decidable (_ ∧ _ ∧ _))

/-- Remove quotes if present. -/
def stripQuotes (value : String) : String :=
  if Quoted value then substr value 1 (sizeSub value.length 2) else value

namespace Environment

def loadLine (env : Environment) (line : String) : Environment :=
  match splitLine line with
  | none => env
  | some (key, value) => env.setenv key (stripQuotes value)

def loadLines (env : Environment) (content : String) : Environment :=
  (readLines '\n' (.ofString content)).foldl loadLine env

end Environment

/-- The file that is opened: the one at the path, else the one in the project root. -/
def openEnvFile (files : String → Option String) (projectRoot path : String) : Option String :=
  (files path).or (files (projectRoot ++ "/.env"))

/-- `load_env_file`, where `files` gives the contents of the files that can be opened. -/
def loadEnvFile (files : String → Option String) (projectRoot path : String) (env : Environment) : Environment × Bool :=
  match openEnvFile files projectRoot path with
  | some content => (env.loadLines content, true)
  | none => (env, false)

/-! ## The grammar -/

/-- The value without the quotes around it, if there are any. -/
def Unquotes (raw value : String) : Prop :=
  raw = "\"" ++ value ++ "\"" ∨ (value = raw ∧ ∀ v, raw ≠ "\"" ++ v ++ "\"")

/-- The line assigns the value to the key. Keys that `setenv` rejects are left out. -/
structure Assigns (line key value : String) : Prop where
  notComment : line.toList.head? ≠ some '#'
  split : ∃ raw, line = key ++ "=" ++ raw ∧ '=' ∉ key.toList ∧ Unquotes raw value
  accepted : ¬ Environment.Rejects key

/-- The lines of a file. -/
def fileLines (content : String) : List String := (content.toList.splitOn '\n').map String.ofList

/-- A line assigns the value to the key, and no later one assigns to the key. -/
def LastAssigned (lines : List String) (key value : String) : Prop :=
  ∃ pre line post, lines = pre ++ line :: post ∧ Assigns line key value ∧ ∀ l ∈ post, ∀ v, ¬ Assigns l key v

/-- The file turned the first environment into the second by its assignments, and the length of a stripped value never
wrapped. -/
structure Loads (content : String) (env env' : Environment) : Prop where
  exactly : ∀ key value, env'.getenv key = some value ↔
    LastAssigned (fileLines content) key value ∨
      (∀ line ∈ fileLines content, ∀ v, ¬ Assigns line key v) ∧ env.getenv key = some value
  noWrap : ∀ line ∈ fileLines content, ∀ key value, splitLine line = some (key, value) → Quoted value →
    2 ≤ value.length

/-- No value is a single quote, and no NUL is in what the last line for a key assigns. -/
structure Clean (content : String) : Prop where
  noLoneQuote : ∀ line ∈ fileLines content, ∀ key, splitLine line ≠ some (key, "\"")
  cStrings : ∀ key value, LastAssigned (fileLines content) key value → IsCString key ∧ IsCString value

/-! ## A line -/

theorem splitLine_append {key : String} (h : '=' ∉ key.toList) (raw : String) :
    splitLine (key ++ "=" ++ raw) =
      if (key ++ "=" ++ raw).toList.head? = some '#' then none else some (key, raw) := by
  have hchars : (key ++ "=" ++ raw).toList = key.toList ++ '=' :: raw.toList := by simp
  have hne : key ++ "=" ++ raw ≠ "" := by
    intro he
    rw [he] at hchars
    simp at hchars
  have hkey : key.toList.findIdx? (· = '=') = none := by
    rw [List.findIdx?_eq_none_iff]
    intro c hc
    exact decide_eq_false fun he => h (he ▸ hc)
  have hpos : (key ++ "=" ++ raw).toList.findIdx? (· = '=') = some key.toList.length := by
    rw [hchars, List.findIdx?_append, hkey]
    simp [List.findIdx?_cons]
  have hfst : substr (key ++ "=" ++ raw) 0 key.toList.length = key := by
    rw [substr, hchars, List.drop_zero, List.take_left, String.ofList_toList]
  have hsnd : substr (key ++ "=" ++ raw) (key.toList.length + 1) (key ++ "=" ++ raw).length = raw := by
    rw [substr, ← String.length_toList, hchars, ← List.drop_drop, List.drop_left, List.drop_one, List.tail_cons,
      List.take_of_length_le (by simp; omega), String.ofList_toList]
  simp only [splitLine, hne, false_or, hpos, hfst, hsnd]

/-- A line that is not skipped is a key without `=`, an `=`, and the rest. -/
theorem splitLine_eq_some {line key raw : String} : splitLine line = some (key, raw) ↔
    line.toList.head? ≠ some '#' ∧ line = key ++ "=" ++ raw ∧ '=' ∉ key.toList := by
  constructor
  · intro h
    by_cases hmem : '=' ∈ line.toList
    · obtain ⟨k, r, hkr, hk⟩ := List.eq_append_cons_of_mem hmem
      have hline : line = String.ofList k ++ "=" ++ String.ofList r := by
        rw [← String.toList_inj, hkr]
        simp
      have hk' : '=' ∉ (String.ofList k).toList := by rwa [String.toList_ofList]
      rw [hline, splitLine_append hk', ← hline] at h
      split at h
      · cases h
      · next hc => cases h; exact ⟨hc, hline, hk'⟩
    · have hnone : line.toList.findIdx? (· = '=') = none := by
        rw [List.findIdx?_eq_none_iff]
        intro c hc
        exact decide_eq_false fun he => hmem (he ▸ hc)
      simp [splitLine, hnone] at h
  · rintro ⟨hc, rfl, hk⟩
    rw [splitLine_append hk, if_neg hc]

/-- What begins and ends with a quote is a single quote or has something between two. -/
theorem quoted_iff {value : String} : Quoted value ↔ value = "\"" ∨ ∃ v, value = "\"" ++ v ++ "\"" := by
  constructor
  · rintro ⟨-, hhead, hlast⟩
    obtain ⟨rest, hrest⟩ := List.head?_eq_some_iff.1 hhead
    rcases List.eq_nil_or_concat' rest with rfl | ⟨v, c, rfl⟩
    · exact .inl (String.toList_inj.1 hrest)
    · rw [hrest, ← List.cons_append, List.getLast?_concat] at hlast
      cases hlast
      refine .inr ⟨String.ofList v, ?_⟩
      rw [← String.toList_inj, hrest]
      simp
  · rintro (rfl | ⟨v, rfl⟩)
    · decide
    · have hchars : ("\"" ++ v ++ "\"").toList = ['"'] ++ v.toList ++ ['"'] := by simp
      refine ⟨fun he => ?_, ?_, ?_⟩
      · rw [he] at hchars
        cases hchars
      · rw [hchars]
        rfl
      · rw [hchars, List.getLast?_concat]

theorem stripQuotes_quoted (v : String) : stripQuotes ("\"" ++ v ++ "\"") = v := by
  have hq : Quoted ("\"" ++ v ++ "\"") := quoted_iff.2 (.inr ⟨v, rfl⟩)
  have hchars : ("\"" ++ v ++ "\"").toList = '"' :: (v.toList ++ ['"']) := by simp
  have hlen : sizeSub ("\"" ++ v ++ "\"").length 2 = v.toList.length := by
    rw [← String.length_toList, hchars, sizeSub]
    simp
  rw [stripQuotes, if_pos hq, substr, hlen, hchars, List.drop_one, List.tail_cons, List.take_left, String.ofList_toList]

/-- Of a value that is not a single quote, stripping removes the quotes around it, if there are any. -/
theorem unquotes_iff {raw value : String} (hlone : raw ≠ "\"") : Unquotes raw value ↔ value = stripQuotes raw := by
  by_cases hq : Quoted raw
  · obtain ⟨v, rfl⟩ := (quoted_iff.1 hq).resolve_left hlone
    rw [stripQuotes_quoted]
    constructor
    · rintro (he | ⟨-, hne⟩)
      · exact ((String.append_right_inj "\"").1 ((String.append_left_inj "\"").1 he)).symm
      · exact absurd rfl (hne v)
    · rintro rfl
      exact .inl rfl
  · have hne : ∀ v, raw ≠ "\"" ++ v ++ "\"" := fun v he => hq (quoted_iff.2 (.inr ⟨v, he⟩))
    rw [stripQuotes, if_neg hq]
    constructor
    · rintro (he | ⟨he, -⟩)
      · exact absurd he (hne value)
      · exact he
    · intro he
      exact .inr ⟨he, hne⟩

/-- What `setenv` stores for a line. -/
def entry (line : String) : Option (String × String) :=
  match splitLine line with
  | none => none
  | some (key, value) => if Environment.Rejects key then none else some (cString key, cString (stripQuotes value))

theorem entry_eq_some {line name value : String} : entry line = some (name, value) ↔
    ∃ key raw, splitLine line = some (key, raw) ∧ ¬ Environment.Rejects key ∧ name = cString key ∧
      value = cString (stripQuotes raw) := by
  unfold entry
  cases splitLine line with
  | none => simp
  | some kv =>
    obtain ⟨key, raw⟩ := kv
    by_cases hr : Environment.Rejects key
    · simp [hr]
    · simp [hr, eq_comm]

/-- Where the value is not a single quote, the grammar reads the line as the loop does. -/
theorem assigns_iff {line key value : String} (hlone : ∀ key, splitLine line ≠ some (key, "\"")) :
    Assigns line key value ↔
      ∃ raw, splitLine line = some (key, raw) ∧ value = stripQuotes raw ∧ ¬ Environment.Rejects key := by
  constructor
  · rintro ⟨hc, ⟨raw, hline, hk, hu⟩, ha⟩
    have hs := splitLine_eq_some.2 ⟨hc, hline, hk⟩
    have hraw : raw ≠ "\"" := by
      rintro rfl
      exact hlone key hs
    exact ⟨raw, hs, (unquotes_iff hraw).1 hu, ha⟩
  · rintro ⟨raw, hs, hv, ha⟩
    obtain ⟨hc, hline, hk⟩ := splitLine_eq_some.1 hs
    have hraw : raw ≠ "\"" := by
      rintro rfl
      exact hlone key hs
    exact ⟨hc, ⟨raw, hline, hk, (unquotes_iff hraw).2 hv⟩, ha⟩

/-! ## The loop -/

namespace Environment

variable {env : Environment}

theorem vars_loadLine (line : String) :
    (env.loadLine line).vars = match entry line with
      | none => env.vars
      | some (name, value) => env.vars.insert name value := by
  unfold loadLine entry
  cases splitLine line with
  | none => rfl
  | some kv =>
    unfold setenv
    by_cases hr : Rejects kv.1
    · simp [hr]
    · simp [hr]

theorem vars_foldl_loadLine (lines : List String) (env : Environment) :
    (lines.foldl loadLine env).vars = (lines.filterMap entry).foldl (fun m e => m.insert e.1 e.2) env.vars := by
  induction lines generalizing env with
  | nil => rfl
  | cons line lines ih =>
    rw [List.foldl_cons, ih, vars_loadLine]
    cases he : entry line with
    | none => rw [List.filterMap_cons_none he]
    | some e => rw [List.filterMap_cons_some he]; rfl

/-- An empty piece at the end of the file is skipped like an empty line. -/
theorem filterMap_entry_readLines (content : String) :
    (readLines '\n' (.ofString content)).filterMap entry = (fileLines content).filterMap entry := by
  obtain ⟨last, hlast, hsplit⟩ := readLines_eq_splitOn '\n' content.toList
  have hnone : last.filterMap entry = [] := by
    rcases hlast with rfl | rfl <;> rfl
  rw [fileLines, hsplit, List.filterMap_append, hnone, List.append_nil]
  rfl

/-- **What the environment holds after a file** is what the last line for the name stored, or else what it held. -/
theorem getenv_loadLines (content name value : String) :
    (env.loadLines content).getenv name = some value ↔
      LastEntry ((fileLines content).filterMap entry) name value ∨
        name ∉ ((fileLines content).filterMap entry).map Prod.fst ∧ env.getenv name = some value := by
  rw [getenv, loadLines, vars_foldl_loadLine, filterMap_entry_readLines, getElem?_foldl_insert]
  rfl

end Environment

/-! ## Clean files -/

/-- Of the lines that assign to a key there is a last one. -/
theorem exists_lastAssigned {lines : List String} {key : String} (h : ∃ line ∈ lines, ∃ v, Assigns line key v) :
    ∃ v, LastAssigned lines key v := by
  induction lines with
  | nil =>
    obtain ⟨line, hl, -⟩ := h
    cases hl
  | cons l lines ih =>
    by_cases hlater : ∃ line ∈ lines, ∃ v, Assigns line key v
    · obtain ⟨v, pre, x, post, rfl, hx, hpost⟩ := ih hlater
      exact ⟨v, l :: pre, x, post, rfl, hx, hpost⟩
    · obtain ⟨line, hl, v, hv⟩ := h
      rcases List.mem_cons.1 hl with rfl | hin
      · exact ⟨v, [], line, lines, rfl, hv, fun l' hl' v' hv' => hlater ⟨l', hl', v', hv'⟩⟩
      · exact absurd ⟨line, hin, v, hv⟩ hlater

namespace Clean

variable {content : String} (h : Clean content)
include h

theorem isCString_key {line key value : String} (hl : line ∈ fileLines content) (ha : Assigns line key value) :
    IsCString key := by
  obtain ⟨v, hv⟩ := exists_lastAssigned ⟨line, hl, value, ha⟩
  exact (h.cStrings key v hv).1

/-- What is stored for a line is what it assigns, the value up to its first NUL. -/
theorem entry_iff {line name value : String} (hl : line ∈ fileLines content) :
    entry line = some (name, value) ↔ ∃ v, Assigns line name v ∧ value = cString v := by
  rw [entry_eq_some]
  constructor
  · rintro ⟨key, raw, hs, hr, rfl, rfl⟩
    have ha : Assigns line key (stripQuotes raw) := (assigns_iff (h.noLoneQuote line hl)).2 ⟨raw, hs, rfl, hr⟩
    rw [cString_of_isCString (h.isCString_key hl ha)]
    exact ⟨stripQuotes raw, ha, rfl⟩
  · rintro ⟨v, ha, rfl⟩
    have hkey := h.isCString_key hl ha
    obtain ⟨raw, hs, rfl, hr⟩ := (assigns_iff (h.noLoneQuote line hl)).1 ha
    exact ⟨name, raw, hs, hr, (cString_of_isCString hkey).symm, rfl⟩

theorem not_assigns_iff {line name : String} (hl : line ∈ fileLines content) :
    (∀ v, entry line ≠ some (name, v)) ↔ ∀ v, ¬ Assigns line name v := by
  constructor
  · intro hn v ha
    exact hn (cString v) ((h.entry_iff hl).2 ⟨v, ha, rfl⟩)
  · intro hn w he
    obtain ⟨v, ha, -⟩ := (h.entry_iff hl).1 he
    exact hn v ha

theorem lastEntry_iff {name value : String} :
    LastEntry ((fileLines content).filterMap entry) name value ↔ LastAssigned (fileLines content) name value := by
  rw [lastEntry_filterMap]
  constructor
  · rintro ⟨pre, x, post, heq, hx, hpost⟩
    have hmem : ∀ y ∈ x :: post, y ∈ fileLines content := fun y hy => heq ▸ List.mem_append_right pre hy
    obtain ⟨v, ha, rfl⟩ := (h.entry_iff (hmem x List.mem_cons_self)).1 hx
    have hlast : LastAssigned (fileLines content) name v :=
      ⟨pre, x, post, heq, ha, fun y hy => (h.not_assigns_iff (hmem y (List.mem_cons_of_mem x hy))).1 (hpost y hy)⟩
    rwa [cString_of_isCString (h.cStrings name v hlast).2]
  · intro hlast
    have hvalue := cString_of_isCString (h.cStrings name value hlast).2
    obtain ⟨pre, x, post, heq, ha, hpost⟩ := hlast
    have hmem : ∀ y ∈ x :: post, y ∈ fileLines content := fun y hy => heq ▸ List.mem_append_right pre hy
    refine ⟨pre, x, post, heq, (h.entry_iff (hmem x List.mem_cons_self)).2 ⟨value, ha, hvalue.symm⟩, ?_⟩
    intro y hy
    exact (h.not_assigns_iff (hmem y (List.mem_cons_of_mem x hy))).2 (hpost y hy)

theorem not_mem_names_iff {name : String} : name ∉ ((fileLines content).filterMap entry).map Prod.fst ↔
    ∀ line ∈ fileLines content, ∀ v, ¬ Assigns line name v := by
  simp only [List.mem_map, List.mem_filterMap]
  constructor
  · intro hn line hl
    exact (h.not_assigns_iff hl).1 fun v he => hn ⟨(name, v), ⟨line, hl, he⟩, rfl⟩
  · rintro hn ⟨⟨name', v⟩, ⟨line, hl, he⟩, rfl⟩
    exact (h.not_assigns_iff hl).2 (hn line hl) v he

end Clean

/-- The characters of a line are in the file. -/
theorem mem_of_mem_fileLines {content line : String} {c : Char} (hl : line ∈ fileLines content)
    (hc : c ∈ line.toList) : c ∈ content.toList := by
  obtain ⟨piece, hp, rfl⟩ := List.mem_map.1 hl
  rw [String.toList_ofList] at hc
  have hjoin : ['\n'].intercalate (content.toList.splitOn '\n') = content.toList := List.intercalate_splitOn '\n'
  rw [← hjoin]
  generalize content.toList.splitOn '\n' = pieces at hp
  induction pieces with
  | nil => cases hp
  | cons q pieces ih =>
    cases pieces with
    | nil =>
      cases List.mem_singleton.1 hp
      simpa using hc
    | cons q' pieces =>
      rw [List.intercalate_cons_cons, List.mem_append, List.mem_append]
      rcases List.mem_cons.1 hp with rfl | hp
      · exact .inl (.inl hc)
      · exact .inr (ih hp)

/-- A file without NUL is clean if no value is a single quote. -/
theorem clean_of_isCString {content : String} (h : IsCString content)
    (hlone : ∀ line ∈ fileLines content, ∀ key, splitLine line ≠ some (key, "\"")) : Clean content := by
  refine ⟨hlone, fun key value hlast => ?_⟩
  obtain ⟨pre, line, post, heq, ⟨-, ⟨raw, rfl, -, hu⟩, -⟩, -⟩ := hlast
  have hmem : key ++ "=" ++ raw ∈ fileLines content := heq ▸ List.mem_append_right pre List.mem_cons_self
  have hnul : nul ∉ (key ++ "=" ++ raw).toList := fun hc => h (mem_of_mem_fileLines hmem hc)
  simp only [String.toList_append, List.mem_append, not_or] at hnul
  refine ⟨hnul.1.1, ?_⟩
  rcases hu with rfl | ⟨rfl, -⟩
  · simp only [String.toList_append, List.mem_append, not_or] at hnul
    exact hnul.2.1.2
  · exact hnul.2

/-- **The file leaves its assignments** in the environment, without a wrapped length, exactly when it is clean. -/
theorem loads_iff {files : String → Option String} {projectRoot path content : String}
    (hopen : openEnvFile files projectRoot path = some content) (env : Environment) :
    Loads content env (loadEnvFile files projectRoot path env).1 ↔ Clean content := by
  rw [loadEnvFile, hopen]
  constructor
  · intro h
    refine ⟨fun line hl key hs => ?_, fun key value hlast => ?_⟩
    · have hwrap := h.noWrap line hl key _ hs (by decide)
      exact absurd hwrap (by decide)
    · exact (env.loadLines content).cStrings key value ((h.exactly key value).2 (.inl hlast))
  · intro h
    refine ⟨fun key value => ?_, fun line hl key value hs hq => ?_⟩
    · rw [Environment.getenv_loadLines, h.lastEntry_iff, h.not_mem_names_iff]
    · rcases quoted_iff.1 hq with rfl | ⟨v, rfl⟩
      · exact absurd hs (h.noLoneQuote line hl key)
      · rw [String.length_append, String.length_append]
        have hone : "\"".length = 1 := rfl
        omega

section Example

theorem comment_and_quoted_loads :
    Loads "# keys\nA=\"x=y\"\nB=\nA=z" .empty
      (loadEnvFile (fun _ => some "# keys\nA=\"x=y\"\nB=\nA=z") "/srv" ".env" .empty).1 := by
  refine (loads_iff rfl .empty).2 (clean_of_isCString (by decide) fun line hl key hs => ?_)
  have hlines : fileLines "# keys\nA=\"x=y\"\nB=\nA=z" = ["# keys", "A=\"x=y\"", "B=", "A=z"] := by decide
  have hvalues : ∀ line ∈ ["# keys", "A=\"x=y\"", "B=", "A=z"], (splitLine line).map Prod.snd ≠ some "\"" := by decide
  rw [hlines] at hl
  exact hvalues line hl (by rw [hs]; rfl)

/-- A value that is a single quote is taken for a quoted text, and its length minus 2 wraps. -/
theorem lone_quote_lost :
    Assigns "K=\"" "K" "\"" ∧
      (loadEnvFile (fun _ => some "K=\"") "/srv" ".env" .empty).1.getenv "K" = some "" ∧
      sizeSub "\"".length 2 = 2 ^ 64 - 1 ∧
      ¬ Loads "K=\"" .empty (loadEnvFile (fun _ => some "K=\"") "/srv" ".env" .empty).1 := by
  refine ⟨⟨by decide, ⟨"\"", by decide, by decide, .inr ⟨rfl, fun v he => ?_⟩⟩, by decide⟩, ?_, by decide, ?_⟩
  · have hlen := congrArg String.length he
    rw [String.length_append, String.length_append] at hlen
    have hone : "\"".length = 1 := rfl
    omega
  · exact (Environment.getenv_loadLines _ _ _).2 (.inl ⟨[], [], by decide, by simp⟩)
  · intro h
    have hwrap := h.noWrap "K=\"" (by decide) "K" "\"" (by decide) (by decide)
    exact absurd hwrap (by decide)

end Example

end CryptoHft
