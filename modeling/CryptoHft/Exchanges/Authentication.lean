import CryptoHft.Exchanges.Exchange

/-!
# Failed authentication on Coinbase

An answer that says that the authentication failed makes `on_message` disconnect, but only after it has converted other
fields: those that it logs of an error, and `success` itself. A field of another type throws, the `catch` block goes on
reading, and the adapter stays connected (`onMessage_authFailed_iff`).
-/

namespace CryptoHft

namespace CoinbaseAdapter

variable {D : Type} {conv : Conversions D} {s : Adapter D} {data : Json}

/-- The document says that the authentication failed. -/
def AuthFailed (data : Json) : Prop :=
  data.lookup "type" = some (.string "error") ∧ data.lookup "error" = some (.string "authentication_failed") ∨
    data.lookup "type" = some (.string "authenticate") ∧ data.lookup "success" ≠ some (.boolean true)

/-- Where they are present, the fields that are converted before the decision have the type asked for. -/
structure Converts (data : Json) : Prop where
  logged : data.lookup "type" = some (.string "error") →
    ∀ key ∈ ["message", "details"], ∀ v, data.lookup key = some v → ∃ t, v = .string t
  success : data.lookup "type" = some (.string "authenticate") →
    ∀ v, data.lookup "success" = some v → ∃ b, v = .boolean b

/-- `on_message` left the adapter disconnected, and not authenticated where it was not before. -/
def ShutOut (s : Adapter D) (result : Outcome (Adapter D)) : Prop :=
  ∃ s', result = .ok s' ∧ s'.connected = false ∧ (s'.authenticated = true → s.authenticated = true)

/-! ## The verdicts -/

theorem illTyped_eq_false {key : String} :
    illTyped data key = false ↔ ∀ v, data.lookup key = some v → ∃ t, v = .string t := by
  unfold illTyped
  cases h : data.lookup key with
  | none => simp
  | some v => cases v <;> simp

theorem verdict_error (now : Int) (h : data.lookup "type" = some (.string "error")) :
    verdict conv now (some data) = errorVerdict data := by
  rw [verdict, h]
  exact if_pos rfl

theorem verdict_authenticate (now : Int) (h : data.lookup "type" = some (.string "authenticate")) :
    verdict conv now (some data) = authenticateVerdict data := by
  rw [verdict, h]
  exact (if_neg (by decide)).trans (if_pos rfl)

theorem shutOut_failed (h : s.connected = true) : ShutOut s (Verdict.failed.effect s) := by
  refine ⟨s.disconnect .io, rfl, ?_⟩
  rw [Adapter.disconnect, if_pos h]
  exact ⟨rfl, id⟩

theorem shutOut_rejected (h : s.connected = true) : ShutOut s (Verdict.rejected.effect s) := by
  refine ⟨{ s with authenticated := false }.disconnect .io, rfl, ?_⟩
  rw [Adapter.disconnect, if_pos h]
  exact ⟨rfl, fun ha => by cases ha⟩

/-- Reading on leaves the adapter connected. -/
theorem not_shutOut_readsOn (h : s.connected = true) : ¬ ShutOut s ((Verdict.readsOn none).effect s) := by
  rintro ⟨s', hs, hc, -⟩
  cases hs
  have hstays : s.connected = false := hc
  rw [h] at hstays
  cases hstays

theorem errorVerdict_iff (h : s.connected = true)
    (he : data.lookup "error" = some (.string "authentication_failed")) :
    ShutOut s ((errorVerdict data).effect s) ↔
      ∀ key ∈ ["message", "details"], ∀ v, data.lookup key = some v → ∃ t, v = .string t := by
  have herror : illTyped data "error" = false := illTyped_eq_false.2 fun v hv => by
    rw [he] at hv
    cases hv
    exact ⟨_, rfl⟩
  simp only [List.forall_mem_cons, ← illTyped_eq_false]
  unfold errorVerdict
  cases hm : illTyped data "message" with
  | true => simpa [hm] using not_shutOut_readsOn h
  | false =>
    cases hd : illTyped data "details" with
    | true => simpa [hm, hd] using not_shutOut_readsOn h
    | false => simpa [hm, hd, herror, he] using shutOut_failed h

theorem authenticateVerdict_iff (h : s.connected = true) (hs : data.lookup "success" ≠ some (.boolean true)) :
    ShutOut s ((authenticateVerdict data).effect s) ↔
      ∀ v, data.lookup "success" = some v → ∃ b, v = .boolean b := by
  unfold authenticateVerdict
  cases hl : data.lookup "success" with
  | none => exact iff_of_true (shutOut_rejected h) fun v hv => by cases hv
  | some v =>
    cases v with
    | boolean b =>
      cases b with
      | true => exact absurd hl hs
      | false => exact iff_of_true (shutOut_rejected h) fun v hv => by cases hv; exact ⟨false, rfl⟩
    | _ =>
      refine iff_of_false (not_shutOut_readsOn h) fun hb => ?_
      obtain ⟨b, hb⟩ := hb _ rfl
      cases hb

/-- **A failed authentication shuts the adapter out** exactly when the fields converted on the way have the type asked
for. -/
theorem onMessage_authFailed_iff (now : Int) (h : s.connected = true) (hf : AuthFailed data) :
    ShutOut s (onMessage conv (.message now (some data)) s) ↔ Converts data := by
  rw [onMessage_eq]
  rcases hf with ⟨ht, he⟩ | ⟨ht, hs⟩
  · rw [verdict_error now ht, errorVerdict_iff h he]
    constructor
    · intro hlogged
      exact ⟨fun _ => hlogged, fun ha => absurd (ht.symm.trans ha) (by simp)⟩
    · intro hc
      exact hc.logged ht
  · rw [verdict_authenticate now ht, authenticateVerdict_iff h hs]
    constructor
    · intro hsuccess
      exact ⟨fun he => absurd (ht.symm.trans he) (by simp), fun _ => hsuccess⟩
    · intro hc
      exact hc.success ht

section Example

/-- The adapter that has connected and waits for the answer. -/
def awaiting : Adapter ℤ := (connect .user (.opens (some "jwt")) .constructed).1

/-- An error whose details are an object, as `handle_error_message` expects them. -/
def detailedError : Json :=
  .object [("type", .string "error"), ("error", .string "authentication_failed"),
    ("details", .object [("code", .number_unsigned 401)])]

theorem plain_error_shutOut :
    ShutOut awaiting (onMessage default (.message 0 (some (.object [("type", .string "error"),
      ("error", .string "authentication_failed"), ("message", .string "bad token")]))) awaiting) := by
  refine (onMessage_authFailed_iff 0 rfl (.inl ⟨rfl, rfl⟩)).2 ⟨fun _ => ?_, fun ha => ?_⟩
  · simp [Json.lookup, List.lookup_cons]
  · simp [Json.lookup] at ha

/-- The details throw before the disconnect: the adapter stays connected, and reads on. -/
theorem detailed_error_stays :
    awaiting.connected = true ∧ AuthFailed detailedError ∧
      (∃ s', onMessage default (.message 0 (some detailedError)) awaiting = .ok s' ∧ s'.connected = true) ∧
      ¬ ShutOut awaiting (onMessage default (.message 0 (some detailedError)) awaiting) := by
  refine ⟨rfl, .inl ⟨rfl, rfl⟩, ⟨_, rfl, rfl⟩, ?_⟩
  rintro ⟨s', hs, hc, -⟩
  cases hs
  cases hc

end Example

end CoinbaseAdapter

end CryptoHft
