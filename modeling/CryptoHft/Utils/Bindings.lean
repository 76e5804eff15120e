import CryptoHft.Utils.EnvFile

/-!
# Writing an environment file

Bindings that are written one a line, with the values between quotes, are read back as they are (`entry_bindingLine`,
`filterMap_entry_envFile`), quotes, equals signs and hashes of a value included.

After loading the file the last binding of a name holds and every other variable is as it was; loading it again changes
nothing (`loadEnvFile_envFile`).
-/

namespace CryptoHft

open Std OrderedMap CharStream

/-- What a line can bind: a name that `setenv` accepts and that does not begin a comment, and a text of one line. -/
structure Writable (binding : String × String) : Prop where
  nonempty : binding.1 ≠ ""
  notComment : binding.1.toList.head? ≠ some '#'
  noEquals : '=' ∉ binding.1.toList
  noNewline : '\n' ∉ binding.1.toList ∧ '\n' ∉ binding.2.toList
  cStrings : IsCString binding.1 ∧ IsCString binding.2

def bindingLine (binding : String × String) : String := binding.1 ++ "=" ++ ("\"" ++ binding.2 ++ "\"")

/-- One binding a line. -/
def envFile : List (String × String) → String
  | [] => ""
  | binding :: bindings => bindingLine binding ++ "\n" ++ envFile bindings

/-! ## Reading the lines back -/

variable {binding : String × String} {bindings : List (String × String)}

theorem Writable.accepted (h : Writable binding) : ¬ Environment.Rejects binding.1 := by
  rw [Environment.Rejects, cString_of_isCString h.cStrings.1, not_or]
  exact ⟨h.nonempty, h.noEquals⟩

theorem entry_bindingLine (h : Writable binding) : entry (bindingLine binding) = some binding := by
  have hnotComment : (bindingLine binding).toList.head? ≠ some '#' := by
    obtain ⟨c, cs, hcs⟩ := List.exists_cons_of_ne_nil (mt String.toList_eq_nil_iff.1 h.nonempty)
    have hhead := h.notComment
    rw [hcs] at hhead
    rw [bindingLine, String.toList_append, String.toList_append, hcs]
    exact hhead
  refine entry_eq_some.2 ⟨binding.1, _, splitLine_eq_some.2 ⟨hnotComment, rfl, h.noEquals⟩, h.accepted, ?_, ?_⟩
  · exact (cString_of_isCString h.cStrings.1).symm
  · rw [stripQuotes_quoted, cString_of_isCString h.cStrings.2]

theorem newline_not_mem_bindingLine (h : Writable binding) : '\n' ∉ (bindingLine binding).toList := by
  simp [bindingLine, h.noNewline.1, h.noNewline.2]

theorem fileLines_append {line : String} (h : '\n' ∉ line.toList) (rest : String) :
    fileLines (line ++ "\n" ++ rest) = line :: fileLines rest := by
  have hchars : (line ++ "\n" ++ rest).toList = line.toList ++ '\n' :: rest.toList := by simp
  rw [fileLines, hchars, List.splitOn_append_cons_self_of_not_mem h, List.map_cons, String.ofList_toList]
  rfl

theorem filterMap_entry_envFile (h : ∀ b ∈ bindings, Writable b) :
    (fileLines (envFile bindings)).filterMap entry = bindings := by
  induction bindings with
  | nil => decide
  | cons binding bindings ih =>
    obtain ⟨hb, hbs⟩ := List.forall_mem_cons.1 h
    rw [envFile, fileLines_append (newline_not_mem_bindingLine hb), List.filterMap_cons_some (entry_bindingLine hb),
      ih hbs]

/-! ## Loading the file -/

theorem Environment.ext_getenv {env env' : Environment} (h : ∀ name, env.getenv name = env'.getenv name) : env = env' := by
  obtain ⟨vars, _⟩ := env
  obtain ⟨vars', _⟩ := env'
  obtain rfl : vars = vars' := ExtTreeMap.ext_getElem? h
  rfl

theorem getenv_envFile (h : ∀ b ∈ bindings, Writable b) (env : Environment) (name value : String) :
    (env.loadLines (envFile bindings)).getenv name = some value ↔
      LastEntry bindings name value ∨ name ∉ bindings.map Prod.fst ∧ env.getenv name = some value := by
  rw [Environment.getenv_loadLines, filterMap_entry_envFile h]

/-- A name that the file binds has its last binding, whatever the environment was. -/
theorem loadLines_loadLines (h : ∀ b ∈ bindings, Writable b) (env : Environment) :
    (env.loadLines (envFile bindings)).loadLines (envFile bindings) = env.loadLines (envFile bindings) := by
  refine Environment.ext_getenv fun name => Option.ext fun value => ?_
  rw [getenv_envFile h, getenv_envFile h]
  constructor
  · rintro (hlast | ⟨-, hheld⟩)
    · exact .inl hlast
    · exact hheld
  · rintro (hlast | ⟨hname, hheld⟩)
    · exact .inl hlast
    · exact .inr ⟨hname, .inr ⟨hname, hheld⟩⟩

/-- **A written file**: loading it leaves the last binding of every name that it binds and every other variable as it
was, and loading it again changes nothing. -/
theorem loadEnvFile_envFile (h : ∀ b ∈ bindings, Writable b) {files : String → Option String} {projectRoot path : String}
    (hopen : openEnvFile files projectRoot path = some (envFile bindings)) (env : Environment) :
    ∃ env', loadEnvFile files projectRoot path env = (env', true) ∧
      (∀ name value, env'.getenv name = some value ↔
        LastEntry bindings name value ∨ name ∉ bindings.map Prod.fst ∧ env.getenv name = some value) ∧
      loadEnvFile files projectRoot path env' = (env', true) := by
  have hload : ∀ env, loadEnvFile files projectRoot path env = (env.loadLines (envFile bindings), true) := by
    intro env
    rw [loadEnvFile, hopen]
  exact ⟨_, hload env, getenv_envFile h env, (hload _).trans (by rw [loadLines_loadLines h])⟩

section Example

def rebound : List (String × String) := [("A", "x=\"#"), ("B", ""), ("A", "\"")]

theorem rebound_writable : ∀ b ∈ rebound, Writable b := by
  intro b hb
  simp only [rebound, List.mem_cons, List.not_mem_nil, or_false] at hb
  rcases hb with rfl | rfl | rfl <;> exact ⟨by decide, by decide, by decide, by decide, by decide⟩

/-- A value that is a single quote is read back when it is written between quotes. -/
theorem rebound_loads : ∃ env', loadEnvFile (fun _ => some (envFile rebound)) "/srv" ".env" .empty = (env', true) ∧
    env'.getenv "A" = some "\"" := by
  have hopen : openEnvFile (fun _ => some (envFile rebound)) "/srv" ".env" = some (envFile rebound) := rfl
  obtain ⟨env', hload, hgetenv, -⟩ := loadEnvFile_envFile rebound_writable hopen .empty
  exact ⟨env', hload, (hgetenv "A" "\"").2 (.inl ⟨[("A", "x=\"#"), ("B", "")], [], rfl, by simp⟩)⟩

end Example

end CryptoHft
