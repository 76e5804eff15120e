import CryptoHft.Lib.Escape
import CryptoHft.Lib.Outcome
import CryptoHft.Utils.EnvFile

/-!
# The token of Coinbase

`coinbase_create_jwt` loads the environment file, takes the name and the secret of the key from the environment, puts a
newline for each backslash with an `n` behind it in the secret, and signs.

* The loop that puts the newlines does not move past a replacement, and halts all the same (`replaceNewlines_halts`).
* A secret comes back as it was before its newlines were escaped and it was put between quotes into the file
  (`coinbaseCreateJwt_secret`).
-/

namespace CryptoHft

open Escape OrderedMap

/-- Replace all literal \n with real newlines. -/
def replaceNewlines (secret : String) : String := String.ofList (replaceLoop '\\' 'n' '\n' secret.toList 0)

/-- What is signed, and the keys it is signed with. -/
structure JwtRequest where
  subject : String
  issuer : String
  notBefore : Int
  expiresAt : Int
  kid : String
  nonce : String
  publicKey : String
  privateKey : String

/-- What a call meets: the files that can be opened, the current path, two readings of the clock, and random bytes. -/
structure Surroundings where
  files : String → Option String
  currentPath : String
  notBefore : Int
  now : Int
  nonce : String

def keyNameVar : String := "COINBASE_KEY_NAME"

def keySecretVar : String := "COINBASE_KEY_SECRET"

def jwtRequest (w : Surroundings) (keyName keySecret : String) : JwtRequest :=
  { subject := keyName, issuer := "cdp", notBefore := w.notBefore, expiresAt := w.now + 120, kid := keyName,
    nonce := w.nonce, publicKey := keyName, privateKey := keySecret }

/-- `coinbase_create_jwt`, where `sign` is what the library makes of the request. Without both variables it throws a
`std::runtime_error`. -/
def coinbaseCreateJwt (sign : JwtRequest → Outcome String) (w : Surroundings) (env : Environment) :
    Environment × Outcome String :=
  let env := (loadEnvFile w.files w.currentPath ".env" env).1
  match env.getenv keyNameVar, env.getenv keySecretVar with
  | some keyName, some keySecret => (env, sign (jwtRequest w keyName (replaceNewlines keySecret)))
  | _, _ => (env, Outcome.throws)

/-! ## The replacement loop -/

/-- **The loop halts** on every secret, with its pairs replaced from left to right and none left, one symbol shorter for
each of its turns. -/
theorem replaceNewlines_halts (secret : String) :
    ∃ result pos, Halts (turn '\\' 'n' '\n') (secret.toList, 0) (pairs '\\' 'n' secret.toList) (result, pos) ∧
      replaceNewlines secret = String.ofList result ∧ result = unescape '\\' 'n' '\n' secret.toList ∧
      ¬ ['\\', 'n'] <:+: result ∧ result.length + pairs '\\' 'n' secret.toList = secret.length := by
  have hca : '\n' ≠ '\\' := by decide
  have hcb : '\n' ≠ 'n' := by decide
  obtain ⟨pos, hhalts⟩ := halts_turn hca (b := 'n') secret.toList 0
  refine ⟨unescape '\\' 'n' '\n' secret.toList, pos, hhalts, ?_, rfl, not_infix_unescape hca hcb secret.toList, ?_⟩
  · rw [replaceNewlines, replaceLoop_eq hca]
  · rw [length_unescape, String.length_toList]

/-! ## The secret -/

/-- The secret as it is written into the file. -/
def escapeNewlines (secret : String) : String := String.ofList (escape '\\' 'n' '\n' secret.toList)

variable {secret : String}

theorem replaceNewlines_escapeNewlines (h : ¬ ['\\', 'n'] <:+: secret.toList) :
    replaceNewlines (escapeNewlines secret) = secret := by
  have hab : '\\' ≠ 'n' := by decide
  have hca : '\n' ≠ '\\' := by decide
  rw [replaceNewlines, replaceLoop_eq hca, escapeNewlines, String.toList_ofList, unescape_escape hab h,
    String.ofList_toList]

theorem isCString_escapeNewlines (h : IsCString secret) : IsCString (escapeNewlines secret) := by
  intro hmem
  rw [escapeNewlines, String.toList_ofList, escape, List.mem_flatMap] at hmem
  obtain ⟨c, hc, hnul⟩ := hmem
  split at hnul
  · exact absurd hnul (by decide)
  · rw [List.mem_singleton] at hnul
    exact h (hnul ▸ hc)

/-- The line of the file that assigns the secret. -/
def secretLine (secret : String) : String := keySecretVar ++ "=" ++ ("\"" ++ escapeNewlines secret ++ "\"")

theorem entry_secretLine (h : IsCString secret) :
    entry (secretLine secret) = some (keySecretVar, escapeNewlines secret) := by
  have hkey : '=' ∉ keySecretVar.toList := by decide
  have hnotComment : (secretLine secret).toList.head? ≠ some '#' := by
    have hc : (secretLine secret).toList.head? = some 'C' := by
      rw [secretLine, String.toList_append, String.toList_append]
      rfl
    rw [hc]
    decide
  refine entry_eq_some.2 ⟨keySecretVar, _, splitLine_eq_some.2 ⟨hnotComment, rfl, hkey⟩, by decide, by decide, ?_⟩
  rw [stripQuotes_quoted, cString_of_isCString (isCString_escapeNewlines h)]

/-- **The secret reaches the signer**: if the last line that sets its variable has it escaped and between quotes, the
private key is the secret. -/
theorem coinbaseCreateJwt_secret {w : Surroundings} {env : Environment} {content keyName : String}
    {before later : List String} (hcstr : IsCString secret) (hpair : ¬ ['\\', 'n'] <:+: secret.toList)
    (hopen : openEnvFile w.files w.currentPath ".env" = some content)
    (hlines : fileLines content = before ++ secretLine secret :: later)
    (hlater : ∀ line ∈ later, ∀ value, entry line ≠ some (keySecretVar, value))
    (hname : (loadEnvFile w.files w.currentPath ".env" env).1.getenv keyNameVar = some keyName) :
    (jwtRequest w keyName secret).privateKey = secret ∧
      ∀ sign, (coinbaseCreateJwt sign w env).2 = sign (jwtRequest w keyName secret) := by
  have hload : (loadEnvFile w.files w.currentPath ".env" env).1 = env.loadLines content := by
    rw [loadEnvFile, hopen]
  have hsecret : (env.loadLines content).getenv keySecretVar = some (escapeNewlines secret) := by
    refine (Environment.getenv_loadLines ..).2 (.inl (lastEntry_filterMap.2 ?_))
    exact ⟨before, secretLine secret, later, hlines, entry_secretLine hcstr, hlater⟩
  refine ⟨rfl, fun sign => ?_⟩
  rw [hload] at hname
  simp only [coinbaseCreateJwt, hload, hname, hsecret, replaceNewlines_escapeNewlines hpair]

section Example

/-- Over two lines, with the symbols that the file, the line and the quotes give a meaning to, and a backslash last. -/
def trickySecret : String := "\"#=\n\\\"\\"

def trickyFile : String := "COINBASE_KEY_SECRET=old\nCOINBASE_KEY_NAME=k\n" ++ secretLine trickySecret ++ "\n# end"

theorem trickySecret_signed :
    (jwtRequest ⟨fun _ => some trickyFile, "/srv", 0, 0, ""⟩ "k" trickySecret).privateKey = trickySecret ∧
      ∀ sign, (coinbaseCreateJwt sign ⟨fun _ => some trickyFile, "/srv", 0, 0, ""⟩ .empty).2 =
        sign (jwtRequest ⟨fun _ => some trickyFile, "/srv", 0, 0, ""⟩ "k" trickySecret) := by
  have hlines : fileLines trickyFile =
      ["COINBASE_KEY_SECRET=old", "COINBASE_KEY_NAME=k"] ++ secretLine trickySecret :: ["# end"] := by decide
  have hname : (loadEnvFile (fun _ => some trickyFile) "/srv" ".env" .empty).1.getenv keyNameVar = some "k" := by
    refine (Environment.getenv_loadLines ..).2 (.inl (lastEntry_filterMap.2 ?_))
    refine ⟨["COINBASE_KEY_SECRET=old"], "COINBASE_KEY_NAME=k", [secretLine trickySecret, "# end"], hlines, by decide, ?_⟩
    have hentries : ∀ line ∈ [secretLine trickySecret, "# end"],
        (entry line).map Prod.fst ≠ some keyNameVar := by decide
    intro line hl value he
    exact hentries line hl (by rw [he]; rfl)
  refine coinbaseCreateJwt_secret (by decide) (by decide) rfl hlines ?_ hname
  intro line hl value he
  have hnone : entry "# end" = none := by decide
  rw [List.mem_singleton.1 hl, hnone] at he
  cases he

end Example

end CryptoHft
