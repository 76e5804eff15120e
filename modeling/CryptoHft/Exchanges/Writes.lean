import CryptoHft.Exchanges.Connection

/-!
# Writes outstanding

`do_write` starts an asynchronous write at once, on the thread of the caller, and waits for no earlier one. So in a run
at most one write is outstanding exactly when no call sends a message while a write is outstanding (`run_writes_iff`);
the messages go to the stream in the order of the calls in any case.

Coinbase sends its authentication message in `connect`: a `subscribe` that follows at once is a second write.
-/

namespace CryptoHft

open Machine

/-- The attempt ends with an open WebSocket, on which the exchange is then spoken to. -/
def Attempt.Opens : Attempt → Prop
  | .opens _ => True
  | _ => False

namespace Connection

variable {D : Type} {conv : Conversions D} {ex : Exchange} {s s' : Adapter D}

/-- The authentication messages of a connect. -/
def authMessages : Exchange → Attempt → List Json
  | .coinbase, .opens (some token) => [CoinbaseAdapter.authMsg token]
  | _, _ => []

/-- The messages that the calls made in a step ask to send. -/
def messages (ex : Exchange) (s : Adapter D) : Event → List Json
  | .connect attempt => if s.connected then [] else authMessages ex attempt
  | .subscribe symbols => if s.connected then [ex.subscribeMsg symbols] else []
  | .unsubscribe symbols => if s.connected then [ex.unsubscribeMsg symbols] else []
  | .readCompletes (.readError attempt) => if s.connected then authMessages ex attempt else []
  | _ => []

/-- The step opens a new connection. -/
def Reopens (s : Adapter D) : Event → Prop
  | .connect attempt => s.connected = false ∧ attempt.Opens
  | .readCompletes (.readError attempt) => s.connected = true ∧ attempt.Opens
  | _ => False

/-! ## One step -/

/-- From `s` to `s'` nothing is written. -/
structure Silent (s s' : Adapter D) : Prop where
  writes : s'.writes = s.writes
  written : s'.written = s.written

/-- From `s` to `s'` the messages `ms` are written, on a new connection or on the old one. -/
structure Sends (s s' : Adapter D) (reopens : Prop) (ms : List Json) : Prop where
  writes : s'.writes = s.writes + ms.length
  keeps : ¬ reopens → s'.written = s.written ++ ms
  restarts : reopens → s'.written = ms

theorem Silent.sends {reopens : Prop} (h : Silent s s') (hr : ¬ reopens) : Sends s s' reopens [] :=
  ⟨h.writes, fun _ => by rw [h.written, List.append_nil], fun hr' => absurd hr' hr⟩

theorem Sends.between {t t' : Adapter D} {reopens : Prop} {ms : List Json} (h : Sends t t' reopens ms)
    (hs : Silent s t) (hs' : Silent t' s') : Sends s s' reopens ms where
  writes := by rw [hs'.writes, h.writes, hs.writes]
  keeps hr := by rw [hs'.written, h.keeps hr, hs.written]
  restarts hr := by rw [hs'.written, h.restarts hr]

theorem disconnect_silent (caller : Caller) (s : Adapter D) : Silent s (s.disconnect caller) := by
  unfold Adapter.disconnect
  split <;> exact ⟨rfl, rfl⟩

theorem emit_silent (event : Option (MarketEvent D)) (s : Adapter D) : Silent s (s.emit event) := by
  rw [s.emit_eq event]
  exact ⟨rfl, rfl⟩

theorem afterHandler_silent (s : Adapter D) : Silent s (afterHandler s) := by
  unfold afterHandler
  split <;> exact ⟨rfl, rfl⟩

/-- Whatever a message makes the adapter do, it writes nothing. -/
theorem effect_silent {v : Verdict D} (h : v.effect s = .ok s') : Silent s s' := by
  cases v with
  | readsOn event => cases h; exact ⟨(emit_silent event s).writes, (emit_silent event s).written⟩
  | stops event => cases h; exact emit_silent event s
  | authenticates => cases h; exact ⟨rfl, rfl⟩
  | rejected =>
    cases h
    have hd := disconnect_silent .io { s with authenticated := false }
    exact ⟨hd.writes, hd.written⟩
  | failed => cases h; exact disconnect_silent .io s
  | undefined => cases h

theorem connect_sends (ex : Exchange) (caller : Caller) (attempt : Attempt) (s : Adapter D) :
    Sends s (ex.connect caller attempt s).1 (s.connected = false ∧ attempt.Opens)
      (if s.connected then [] else authMessages ex attempt) := by
  cases hc : s.connected with
  | true =>
    rw [connect_connected hc]
    exact Silent.sends ⟨rfl, rfl⟩ (by simp)
  | false =>
    cases s
    cases hc
    cases attempt with
    | opens jwt =>
      have hopens : false = false ∧ (Attempt.opens jwt).Opens := ⟨rfl, trivial⟩
      cases ex with
      | coinbase => cases jwt <;> exact ⟨rfl, fun h => absurd hopens h, fun _ => rfl⟩
      | kraken | binance => exact ⟨rfl, fun h => absurd hopens h, fun _ => rfl⟩
    | _ => cases ex <;> exact Silent.sends ⟨rfl, rfl⟩ fun h => h.2

theorem request_sends (message : Json) (s : Adapter D) :
    Sends s (s.request message).1 False (if s.connected then [message] else []) := by
  unfold Adapter.request
  split
  · exact ⟨rfl, fun _ => rfl, False.elim⟩
  · exact Silent.sends ⟨rfl, rfl⟩ id

theorem readError_sends {attempt : Attempt} (h : ex.onMessage conv (.readError attempt) s = .ok s') :
    Sends s s' (s.connected = true ∧ attempt.Opens) (if s.connected then authMessages ex attempt else []) := by
  rw [readError_eq] at h
  cases h
  cases hc : s.connected with
  | false => exact Silent.sends ⟨rfl, rfl⟩ (by simp)
  | true =>
    have hd : (s.disconnect .io).connected = false := by rw [Adapter.disconnect, if_pos hc]
    have hsends := connect_sends ex .io attempt (s.disconnect .io)
    rw [hd] at hsends
    simpa using hsends.between (disconnect_silent .io s) ⟨rfl, rfl⟩

/-- **What a step writes**, but for the completion of a write. -/
theorem step_sends {e : Event} (hs : step conv ex s e = some s') (he : e ≠ .writeCompletes) :
    Sends s s' (Reopens s e) (messages ex s e) := by
  cases e with
  | registerOrderBookCallback | registerOrderBookDeltaCallback => cases hs; exact Silent.sends ⟨rfl, rfl⟩ id
  | connect attempt => cases hs; exact connect_sends ex .user attempt s
  | disconnect => cases hs; exact (disconnect_silent .user s).sends id
  | subscribe symbols | unsubscribe symbols => cases hs; cases ex <;> exact request_sends _ s
  | writeCompletes => exact absurd rfl he
  | readCompletes completion =>
    obtain ⟨-, -, s₁, hm, rfl⟩ := completes_eq hs
    have hread : Silent s { s with reads := s.reads - 1 } := ⟨rfl, rfl⟩
    cases completion with
    | readError attempt => exact (readError_sends hm).between hread (afterHandler_silent s₁)
    | message now doc =>
      rw [Exchange.onMessage_eq] at hm
      exact ((effect_silent hm).sends id).between hread (afterHandler_silent s₁)

theorem writeCompletes_eq (hs : step conv ex s .writeCompletes = some s') :
    s'.writes = s.writes - 1 ∧ s'.written = s.written := by
  simp only [step] at hs
  split at hs
  · cases hs; exact ⟨rfl, rfl⟩
  · cases hs

/-! ## Runs -/

theorem authMessages_length_le (ex : Exchange) (attempt : Attempt) : (authMessages ex attempt).length ≤ 1 := by
  unfold authMessages
  split <;> simp

/-- A step sends one message at most. -/
theorem messages_length_le (ex : Exchange) (s : Adapter D) (e : Event) : (messages ex s e).length ≤ 1 := by
  have hauth := authMessages_length_le ex
  cases e with
  | connect attempt => rw [messages]; split <;> simp [hauth]
  | subscribe | unsubscribe => rw [messages]; split <;> simp
  | readCompletes completion =>
    cases completion with
    | readError attempt => rw [messages]; split <;> simp [hauth]
    | message => exact Nat.zero_le 1
  | _ => exact Nat.zero_le 1

/-- A step leaves at most one write outstanding exactly when it sends only if none is. -/
theorem step_writes_iff {e : Event} (hw : s.writes ≤ 1) (hs : step conv ex s e = some s') :
    s'.writes ≤ 1 ↔ (messages ex s e ≠ [] → s.writes = 0) := by
  by_cases he : e = .writeCompletes
  · subst he
    have hc := (writeCompletes_eq hs).1
    exact iff_of_true (by omega) fun hm => absurd rfl hm
  · have hsends := (step_sends hs he).writes
    have hlen := messages_length_le ex s e
    by_cases hm : messages ex s e = []
    · rw [hm, List.length_nil] at hsends
      exact iff_of_true (by omega) fun hne => absurd hm hne
    · have hpos := List.length_pos_of_ne_nil hm
      constructor
      · intro hle _
        omega
      · intro hzero
        have hnone := hzero hm
        omega

theorem step_written {e : Event} (hr : ¬ Reopens s e) (hs : step conv ex s e = some s') :
    s'.written = s.written ++ messages ex s e := by
  by_cases he : e = .writeCompletes
  · subst he
    rw [(writeCompletes_eq hs).2]
    exact (List.append_nil _).symm
  · exact (step_sends hs he).keeps hr

/-- Along the run at most one write is outstanding, and the messages go to the stream in the order of the calls: those
of a stretch on one connection after what was written before, those of a step that opens a connection first on it. -/
structure OneAtATime (conv : Conversions D) (ex : Exchange) (es : List Event) (s : Adapter D) : Prop where
  one : ∀ pre post s₁, es = pre ++ post → Run (step conv ex) Adapter.constructed pre s₁ → s₁.writes ≤ 1
  ordered : ∀ pre post s₁, es = pre ++ post → Run (step conv ex) Adapter.constructed pre s₁ →
    Along (step conv ex) (fun s e => ¬ Reopens s e) s₁ post →
    s.written = s₁.written ++ emitted (step conv ex) (messages ex) s₁ post
  reopened : ∀ pre e post s₁ s₂, es = pre ++ e :: post → Run (step conv ex) Adapter.constructed pre s₁ →
    step conv ex s₁ e = some s₂ → Reopens s₁ e → s₂.written = messages ex s₁ e

/-- **Writes.** In a run at most one write is outstanding, with the messages in the order of the calls, if and only if
no call of the run sends a message while a write is outstanding. -/
theorem run_writes_iff {es : List Event} (h : Run (step conv ex) Adapter.constructed es s) :
    OneAtATime conv ex es s ↔
      Along (step conv ex) (fun s e => messages ex s e ≠ [] → s.writes = 0) Adapter.constructed es := by
  have hone := h.always_iff_along (J := fun _ => True) (P := fun s => s.writes ≤ 1) (fun _ _ _ _ _ => trivial)
    (fun _ _ _ _ hw hs => step_writes_iff hw hs) trivial (Nat.zero_le 1)
  constructor
  · intro hall
    exact hone.1 hall.one
  · intro hok
    refine ⟨hone.2 hok, ?_, ?_⟩
    · rintro pre post s₁ rfl hpre hstay
      exact (h.after hpre).log_eq Adapter.written (fun _ _ _ hr hs => step_written hr hs) hstay
    · rintro pre e post s₁ s₂ rfl hpre hs hr
      have he : e ≠ .writeCompletes := by
        rintro rfl
        exact hr
      exact (step_sends hs he).restarts hr

section Example

/-- A subscription that waits for the authentication message to be written. -/
theorem waiting_subscribe_one : ∃ s : Adapter ℤ,
    Run (step default .coinbase) Adapter.constructed
      [.connect (.opens (some "jwt")), .writeCompletes, .subscribe ["BTC-USD"]] s ∧ s.writes = 1 ∧
      OneAtATime default .coinbase [.connect (.opens (some "jwt")), .writeCompletes, .subscribe ["BTC-USD"]] s := by
  have hrun : ∃ s : Adapter ℤ, Run (step default .coinbase) Adapter.constructed
      [.connect (.opens (some "jwt")), .writeCompletes, .subscribe ["BTC-USD"]] s ∧ s.writes = 1 :=
    ⟨_, run_iff_exec.2 rfl, rfl⟩
  obtain ⟨s, h, hw⟩ := hrun
  refine ⟨s, h, hw, (run_writes_iff h).2 ?_⟩
  refine .cons (fun _ => rfl) fun s₁ hs₁ => ?_
  cases hs₁
  refine .cons (fun hm => absurd rfl hm) fun s₂ hs₂ => ?_
  cases hs₂
  exact .cons (fun _ => rfl) fun _ _ => .nil

/-- What the trading system does on Coinbase: `subscribe` right after `connect` is a second write. -/
theorem connect_subscribe_two_writes : ∃ s : Adapter ℤ,
    Run (step default .coinbase) Adapter.constructed
      [.connect (.opens (some "jwt")), .subscribe ["BTC-USD"]] s ∧ s.writes = 2 ∧
      ¬ OneAtATime default .coinbase [.connect (.opens (some "jwt")), .subscribe ["BTC-USD"]] s := by
  refine ⟨_, run_iff_exec.2 rfl, rfl, fun h => ?_⟩
  have hone := h.one _ [] _ (List.append_nil _).symm (run_iff_exec.2 rfl)
  exact absurd hone (by decide)

end Example

end Connection

end CryptoHft
