import CryptoHft.Exchanges.Exchange
import CryptoHft.Lib.Machine

/-!
# Runs of a connection

The user connects, subscribes and disconnects; the IO thread completes the asynchronous reads and writes, as long as the
context runs. A completion is handled by `on_message`, which may start the next read, or connect again after an error.

Every reachable adapter is in one of four phases (`run_phase`): not connected yet; connected; stopped; or connected
again with a context that stays stopped. Each step moves between them as `Next` says (`step_phase`).
-/

namespace CryptoHft

open Machine

variable {D : Type}

namespace Connection

inductive Event
  | registerOrderBookCallback
  | registerOrderBookDeltaCallback
  | connect (attempt : Attempt)
  | disconnect
  | subscribe (symbols : List String)
  | unsubscribe (symbols : List String)
  | readCompletes (completion : Completion)
  | writeCompletes

/-- The IO thread leaves `run` when a handler returns to a stopped context. -/
def afterHandler (s : Adapter D) : Adapter D := if s.iocStopped then { s with ioThread := .finished } else s

/-- The IO thread runs handlers. -/
def Runs (s : Adapter D) : Prop := s.iocStopped = false ∧ s.ioThread = .running

instance (s : Adapter D) : Decidable (Runs s) := inferInstanceAs (Decidable (_ ∧ _))

/-- A completion whose handling is undefined has no step. -/
def step (conv : Conversions D) (ex : Exchange) (s : Adapter D) : Event → Option (Adapter D)
  | .registerOrderBookCallback => some s.registerOrderBookCallback
  | .registerOrderBookDeltaCallback => some s.registerOrderBookDeltaCallback
  | .connect attempt => some (ex.connect .user attempt s).1
  | .disconnect => some (s.disconnect .user)
  | .subscribe symbols => some (ex.subscribe symbols s).1
  | .unsubscribe symbols => some (ex.unsubscribe symbols s).1
  | .readCompletes completion =>
    if Runs s ∧ 0 < s.reads then
      match ex.onMessage conv completion { s with reads := s.reads - 1 } with
      | .ok s' => some (afterHandler s')
      | .error _ => none
    else none
  | .writeCompletes => if Runs s ∧ 0 < s.writes then some { s with writes := s.writes - 1 } else none

/-! ## What the operations do -/

/-- The attempt ends in a connection. -/
def Succeeds : Exchange → Attempt → Prop
  | .coinbase, .opens jwt => ∃ token, jwt = some token
  | .kraken, .opens _ => True
  | .binance, .opens _ => True
  | _, _ => False

variable {conv : Conversions D} {ex : Exchange} {s s' : Adapter D}

theorem connect_connected {caller : Caller} {attempt : Attempt} (h : s.connected = true) :
    ex.connect caller attempt s = (s, true) := by
  cases ex <;> simp [Exchange.connect, CoinbaseAdapter.connect, KrakenAdapter.connect, BinanceAdapter.connect,
    Adapter.connect, h]

/-- A connect that succeeds issues the first read. -/
theorem connect_succeeds (caller : Caller) {attempt : Attempt} (h : s.connected = false)
    (ha : Succeeds ex attempt) :
    ∃ writes written, ex.connect caller attempt s =
      ({ s with connected := true, transport := .websocket, reads := s.reads + 1, writes, written }, true) := by
  cases s
  cases h
  cases attempt with
  | opens jwt =>
    cases ex with
    | coinbase => obtain ⟨token, rfl⟩ := ha; exact ⟨_, _, rfl⟩
    | kraken | binance => exact ⟨_, _, rfl⟩
  | _ => cases ex <;> exact ha.elim

/-- A connect that fails touches the transport and the log of the connection only. -/
theorem connect_fails (caller : Caller) {attempt : Attempt} (h : s.connected = false) (ha : ¬ Succeeds ex attempt) :
    ∃ transport written, ex.connect caller attempt s = ({ s with transport, written }, false) := by
  cases s
  cases h
  cases attempt with
  | opens jwt =>
    cases ex with
    | coinbase =>
      cases jwt with
      | some token => exact absurd ⟨token, rfl⟩ ha
      | none => exact ⟨_, _, rfl⟩
    | kraken | binance => exact absurd trivial ha
  | _ => cases ex <;> exact ⟨_, _, rfl⟩

/-- What a connect leaves alone. -/
theorem connect_eq (ex : Exchange) (caller : Caller) (attempt : Attempt) (s : Adapter D) :
    ∃ connected transport reads writes written,
      (ex.connect caller attempt s).1 = { s with connected, transport, reads, writes, written } := by
  cases hc : s.connected with
  | true =>
    rw [connect_connected hc, ← hc]
    exact ⟨_, _, _, _, _, rfl⟩
  | false =>
    by_cases ha : Succeeds ex attempt
    · obtain ⟨writes, written, he⟩ := connect_succeeds caller hc ha
      rw [he]
      exact ⟨_, _, _, _, _, rfl⟩
    · obtain ⟨transport, written, he⟩ := connect_fails caller hc ha
      rw [he]
      exact ⟨_, _, _, _, _, rfl⟩

/-- The completion of a read ends a call of `on_message`. -/
theorem completes_eq {completion : Completion} (h : step conv ex s (.readCompletes completion) = some s') :
    Runs s ∧ 0 < s.reads ∧ ∃ s₁, ex.onMessage conv completion { s with reads := s.reads - 1 } = .ok s₁ ∧
      s' = afterHandler s₁ := by
  simp only [step] at h
  split at h
  · next hr =>
    split at h
    · next s₁ hm => cases h; exact ⟨hr.1, hr.2, s₁, hm, rfl⟩
    · cases h
  · cases h

/-! ## The phases of a connection -/

/-- Not connected yet; connected, with the next read issued or not; stopped; stopped, and connected again. -/
inductive Phase
  | idle
  | live (reading : Bool)
  | stopped
  | revived

def HasPhase (s : Adapter D) : Phase → Prop
  | .idle => s.connected = false ∧ Runs s ∧ s.reads = 0
  | .live reading => s.connected = true ∧ Runs s ∧ s.reads = reading.toNat
  | .stopped => s.connected = false ∧ s.iocStopped = true
  | .revived => s.connected = true ∧ s.iocStopped = true

/-- Every other field may change without a change of phase. -/
theorem HasPhase.congr {p : Phase} (h : HasPhase s p) (hc : s'.connected = s.connected) (hr : s'.reads = s.reads)
    (hs : s'.iocStopped = s.iocStopped) (ht : s'.ioThread = s.ioThread) : HasPhase s' p := by
  cases p <;> simpa only [HasPhase, Runs, hc, hr, hs, ht] using h

theorem constructed_idle : HasPhase (Adapter.constructed : Adapter D) .idle := ⟨rfl, ⟨rfl, rfl⟩, rfl⟩

/-- A completion is handled in a live phase with the read issued. -/
theorem reading_of_completes {p : Phase} (h : HasPhase s p) (hr : Runs s) (hpos : 0 < s.reads) :
    p = .live true := by
  cases p with
  | idle => exact absurd h.2.2 (Nat.ne_of_gt hpos)
  | live reading =>
    cases reading with
    | true => rfl
    | false => exact absurd h.2.2 (Nat.ne_of_gt hpos)
  | stopped | revived =>
    have hstop : s.iocStopped = true := h.2
    rw [hr.1] at hstop
    cases hstop

/-- The phase after a connect. -/
theorem connect_phase (ex : Exchange) {p : Phase} (h : HasPhase s p) (caller : Caller) (attempt : Attempt) :
    (Succeeds ex attempt ∧ p = .idle ∧ HasPhase (ex.connect caller attempt s).1 (.live true)) ∨
      (Succeeds ex attempt ∧ p = .stopped ∧ HasPhase (ex.connect caller attempt s).1 .revived) ∨
      HasPhase (ex.connect caller attempt s).1 p := by
  cases hc : s.connected with
  | true => rw [connect_connected hc]; exact .inr (.inr h)
  | false =>
    by_cases ha : Succeeds ex attempt
    · obtain ⟨writes, written, he⟩ := connect_succeeds caller hc ha
      rw [he]
      cases p with
      | idle =>
        have hreads : s.reads + 1 = Bool.toNat true := by rw [h.2.2]; rfl
        exact .inl ⟨ha, rfl, rfl, h.2.1, hreads⟩
      | live => rw [h.1] at hc; cases hc
      | stopped => exact .inr (.inl ⟨ha, rfl, rfl, h.2⟩)
      | revived => rw [h.1] at hc; cases hc
    · obtain ⟨transport, written, he⟩ := connect_fails caller hc ha
      rw [he]
      exact .inr (.inr (h.congr rfl rfl rfl rfl))

theorem disconnect_phase {p : Phase} (h : HasPhase s p) (caller : Caller) :
    HasPhase (s.disconnect caller) .stopped ∨ HasPhase (s.disconnect caller) p := by
  unfold Adapter.disconnect
  split
  · exact .inl ⟨rfl, rfl⟩
  · exact .inr h

theorem disconnect_stopped (h : s.connected = true) (caller : Caller) : HasPhase (s.disconnect caller) .stopped := by
  unfold Adapter.disconnect
  rw [if_pos h]
  exact ⟨rfl, rfl⟩

theorem request_phase {p : Phase} (h : HasPhase s p) (message : Json) : HasPhase (s.request message).1 p := by
  unfold Adapter.request
  split
  · exact h.congr rfl rfl rfl rfl
  · exact h

theorem afterHandler_phase {p : Phase} (h : HasPhase s p) : HasPhase (afterHandler s) p := by
  unfold afterHandler
  split
  · next hs =>
    cases p with
    | idle | live =>
      have hruns : s.iocStopped = false := h.2.1.1
      rw [hruns] at hs
      cases hs
    | stopped | revived => exact h
  · exact h

theorem emit_phase {p : Phase} (h : HasPhase s p) (event : Option (MarketEvent D)) : HasPhase (s.emit event) p := by
  rw [s.emit_eq event]
  exact h.congr rfl rfl rfl rfl

/-- What a step does to the phase. -/
inductive Next (ex : Exchange) : Phase → Event → Phase → Prop
  | same {p e} (he : ∀ completion, e ≠ .readCompletes completion) : Next ex p e p
  | connects {attempt} (ha : Succeeds ex attempt) : Next ex .idle (.connect attempt) (.live true)
  | revives {attempt} (ha : Succeeds ex attempt) : Next ex .stopped (.connect attempt) .revived
  | disconnects {p} : Next ex p .disconnect .stopped
  | readsOn {now doc} (hd : ¬ ex.StopsReading doc) :
      Next ex (.live true) (.readCompletes (.message now doc)) (.live true)
  | leaves {now doc} (hd : ¬ ex.StopsReading doc) : Next ex (.live true) (.readCompletes (.message now doc)) .stopped
  | stopsReading {now doc} (hd : ex.StopsReading doc) :
      Next ex (.live true) (.readCompletes (.message now doc)) (.live false)
  | reconnects {attempt} (ha : Succeeds ex attempt) :
      Next ex (.live true) (.readCompletes (.readError attempt)) .revived
  | loses {attempt} (ha : ¬ Succeeds ex attempt) : Next ex (.live true) (.readCompletes (.readError attempt)) .stopped

theorem message_phase (h : HasPhase s (.live false)) {now : Int} {doc : Option Json}
    (hs : ex.onMessage conv (.message now doc) s = .ok s') :
    ∃ p, HasPhase s' p ∧ Next ex (.live true) (.readCompletes (.message now doc)) p := by
  rw [Exchange.onMessage_eq] at hs
  have hdef : ex.verdict conv now doc ≠ .undefined := fun he => by rw [he] at hs; cases hs
  have hstops := Exchange.stops_iff hdef
  cases hv : ex.verdict conv now doc with
  | readsOn event =>
    rw [hv] at hs hstops
    cases hs
    obtain ⟨hc, hr, hn⟩ := emit_phase h event
    have hreads : (s.emit event).doRead.reads = 1 := by rw [Adapter.doRead, hn]; rfl
    exact ⟨.live true, ⟨hc, hr, hreads⟩, .readsOn fun hd => hstops.2 hd⟩
  | stops event =>
    rw [hv] at hs hstops
    cases hs
    have hd : ex.StopsReading doc := hstops.1 trivial
    exact ⟨.live false, emit_phase h event, .stopsReading hd⟩
  | authenticates =>
    rw [hv] at hs hstops
    cases hs
    have hd : ex.StopsReading doc := hstops.1 trivial
    exact ⟨.live false, h, .stopsReading hd⟩
  | rejected =>
    rw [hv] at hs hstops
    cases hs
    have h' : HasPhase { s with authenticated := false } (.live false) := h
    exact ⟨.stopped, disconnect_stopped h'.1 .io, .leaves fun hd => hstops.2 hd⟩
  | failed =>
    rw [hv] at hs hstops
    cases hs
    exact ⟨.stopped, disconnect_stopped h.1 .io, .leaves fun hd => hstops.2 hd⟩
  | undefined => exact absurd hv hdef

theorem readError_eq (attempt : Attempt) (s : Adapter D) : ex.onMessage conv (.readError attempt) s =
    .ok (if s.connected then (ex.connect .io attempt (s.disconnect .io)).1 else s) := by
  cases ex <;> rfl

theorem readError_phase (h : HasPhase s (.live false)) {attempt : Attempt}
    (hs : ex.onMessage conv (.readError attempt) s = .ok s') :
    (∃ p, HasPhase s' p ∧ Next ex (.live true) (.readCompletes (.readError attempt)) p) ∧
      (s'.connected = true → s'.reads = 1) := by
  have hreads : (s.disconnect .io).reads = 0 := by
    rw [Adapter.disconnect, if_pos h.1]
    exact h.2.2
  rw [readError_eq, if_pos h.1] at hs
  cases hs
  have hstop := disconnect_stopped h.1 .io
  by_cases ha : Succeeds ex attempt
  · obtain ⟨writes, written, he⟩ := connect_succeeds .io hstop.1 ha
    rw [he]
    exact ⟨⟨.revived, ⟨rfl, hstop.2⟩, .reconnects ha⟩, fun _ => by rw [hreads]⟩
  · obtain ⟨transport, written, he⟩ := connect_fails .io hstop.1 ha
    rw [he]
    exact ⟨⟨.stopped, hstop, .loses ha⟩, fun hc => by rw [hstop.1] at hc; cases hc⟩

/-- **The step of the phases.** -/
theorem step_phase {p : Phase} {e : Event} (h : HasPhase s p) (hs : step conv ex s e = some s') :
    ∃ p', HasPhase s' p' ∧ Next ex p e p' := by
  cases e with
  | registerOrderBookCallback | registerOrderBookDeltaCallback => cases hs; exact ⟨p, h.congr rfl rfl rfl rfl, .same nofun⟩
  | connect attempt =>
    cases hs
    rcases connect_phase ex h .user attempt with ⟨ha, rfl, hp⟩ | ⟨ha, rfl, hp⟩ | hp
    · exact ⟨_, hp, .connects ha⟩
    · exact ⟨_, hp, .revives ha⟩
    · exact ⟨p, hp, .same nofun⟩
  | disconnect =>
    cases hs
    rcases disconnect_phase h .user with hp | hp
    · exact ⟨_, hp, .disconnects⟩
    · exact ⟨p, hp, .same nofun⟩
  | subscribe symbols | unsubscribe symbols =>
    cases hs
    refine ⟨p, ?_, .same nofun⟩
    cases ex <;> exact request_phase h _
  | writeCompletes =>
    simp only [step] at hs
    split at hs
    · cases hs; exact ⟨p, h.congr rfl rfl rfl rfl, .same nofun⟩
    · cases hs
  | readCompletes completion =>
    obtain ⟨hr, hpos, s₁, hm, rfl⟩ := completes_eq hs
    cases reading_of_completes h hr hpos
    have hread : HasPhase { s with reads := s.reads - 1 } (.live false) := ⟨h.1, h.2.1, by simp [h.2.2]⟩
    cases completion with
    | readError attempt =>
      obtain ⟨⟨p', hp, hn⟩, -⟩ := readError_phase hread hm
      exact ⟨p', afterHandler_phase hp, hn⟩
    | message now doc =>
      obtain ⟨p', hp, hn⟩ := message_phase hread hm
      exact ⟨p', afterHandler_phase hp, hn⟩

theorem step_hasPhase {e : Event} (h : ∃ p, HasPhase s p) (hs : step conv ex s e = some s') : ∃ p, HasPhase s' p := by
  obtain ⟨p, hp⟩ := h
  obtain ⟨p', hp', -⟩ := step_phase hp hs
  exact ⟨p', hp'⟩

theorem run_phase {es : List Event} (h : Run (step conv ex) Adapter.constructed es s) : ∃ p, HasPhase s p :=
  h.invariant (fun _ _ _ hp hs => step_hasPhase hp hs) ⟨.idle, constructed_idle⟩

end Connection

end CryptoHft
