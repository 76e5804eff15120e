import CryptoHft.Exchanges.Connection

/-!
# What an adapter delivers

The calls of the callbacks over the whole life of an adapter, whatever the user and the network do.

* They are the events of the messages that were received while the callback was there, once each and in order
  (`run_calls`).
* A completion is followed by another one only if it was a message after which `on_message` reads on; after a disconnect
  there is none (`run_completions`). Only the first stretch of reading counts: a later connect serves none.
* Coinbase never reads on after market data, so its adapter calls a callback at most once (`run_coinbase_calls`).
-/

namespace CryptoHft

open Machine

variable {D : Type}

/-- The event that the verdict hands to a callback. -/
def Verdict.event : Verdict D → Option (MarketEvent D)
  | .readsOn event | .stops event => event
  | _ => none

namespace Connection

/-- The calls that an event makes. -/
def delivers (conv : Conversions D) (ex : Exchange) (s : Adapter D) : Event → List (MarketEvent D)
  | .readCompletes (.message now doc) => (ex.verdict conv now doc).event.toList.filter s.wants
  | _ => []

variable {conv : Conversions D} {ex : Exchange} {s s' : Adapter D}

/-! ## One step -/

theorem connect_calls (caller : Caller) (attempt : Attempt) (s : Adapter D) :
    (ex.connect caller attempt s).1.calls = s.calls := by
  obtain ⟨connected, transport, reads, writes, written, he⟩ := connect_eq ex caller attempt s
  rw [he]

theorem disconnect_calls (caller : Caller) (s : Adapter D) : (s.disconnect caller).calls = s.calls := by
  unfold Adapter.disconnect
  split <;> rfl

theorem request_calls (message : Json) (s : Adapter D) : (s.request message).1.calls = s.calls := by
  unfold Adapter.request
  split <;> rfl

theorem afterHandler_calls (s : Adapter D) : (afterHandler s).calls = s.calls := by
  unfold afterHandler
  split <;> rfl

theorem effect_calls {v : Verdict D} (h : v.effect s = .ok s') :
    s'.calls = s.calls ++ v.event.toList.filter s.wants := by
  cases v with
  | readsOn event | stops event => cases h; exact congrArg Adapter.calls (s.emit_eq event)
  | authenticates => cases h; exact (List.append_nil _).symm
  | rejected => cases h; exact (disconnect_calls ..).trans (List.append_nil _).symm
  | failed => cases h; exact (disconnect_calls ..).trans (List.append_nil _).symm
  | undefined => cases h

theorem step_calls {e : Event} (h : step conv ex s e = some s') : s'.calls = s.calls ++ delivers conv ex s e := by
  cases e with
  | registerOrderBookCallback | registerOrderBookDeltaCallback => cases h; exact (List.append_nil _).symm
  | connect attempt => cases h; exact (connect_calls ..).trans (List.append_nil _).symm
  | disconnect => cases h; exact (disconnect_calls ..).trans (List.append_nil _).symm
  | subscribe symbols | unsubscribe symbols =>
    cases h
    cases ex <;> exact (request_calls ..).trans (List.append_nil _).symm
  | writeCompletes =>
    simp only [step] at h
    split at h
    · cases h; exact (List.append_nil _).symm
    · cases h
  | readCompletes completion =>
    obtain ⟨-, -, s₁, hm, rfl⟩ := completes_eq h
    rw [afterHandler_calls]
    cases completion with
    | message now doc =>
      rw [Exchange.onMessage_eq] at hm
      have hcalls := effect_calls hm
      exact hcalls
    | readError attempt =>
      rw [readError_eq] at hm
      cases hm
      split
      · exact ((connect_calls ..).trans (disconnect_calls ..)).trans (List.append_nil _).symm
      · exact (List.append_nil _).symm

/-- **Deliveries**: over the life of an adapter the callbacks are called with the events of the messages received while
they are there, each once and in order. -/
theorem run_calls {es : List Event} (h : Run (step conv ex) Adapter.constructed es s) :
    s.calls = emitted (step conv ex) (delivers conv ex) Adapter.constructed es := by
  have hall : Along (step conv ex) (fun _ _ => True) Adapter.constructed es := fun _ _ _ _ _ _ => trivial
  exact h.log_eq (fun s => s.calls) (fun _ _ _ _ hs => step_calls hs) hall

/-! ## Callbacks -/

/-- Both callbacks are registered. -/
def Listening (s : Adapter D) : Prop := s.orderBookCallback = true ∧ s.orderBookDeltaCallback = true

/-- The callbacks stay registered. -/
def Keeps (s s' : Adapter D) : Prop :=
  s'.orderBookCallback = s.orderBookCallback ∧ s'.orderBookDeltaCallback = s.orderBookDeltaCallback

theorem connect_keeps (caller : Caller) (attempt : Attempt) (s : Adapter D) : Keeps s (ex.connect caller attempt s).1 := by
  obtain ⟨connected, transport, reads, writes, written, he⟩ := connect_eq ex caller attempt s
  rw [he]
  exact ⟨rfl, rfl⟩

theorem disconnect_keeps (caller : Caller) (s : Adapter D) : Keeps s (s.disconnect caller) := by
  unfold Adapter.disconnect
  split <;> exact ⟨rfl, rfl⟩

theorem request_keeps (message : Json) (s : Adapter D) : Keeps s (s.request message).1 := by
  unfold Adapter.request
  split <;> exact ⟨rfl, rfl⟩

theorem afterHandler_keeps (s : Adapter D) : Keeps s (afterHandler s) := by
  unfold afterHandler
  split <;> exact ⟨rfl, rfl⟩

theorem emit_keeps (s : Adapter D) (event : Option (MarketEvent D)) : Keeps s (s.emit event) := by
  rw [s.emit_eq event]
  exact ⟨rfl, rfl⟩

theorem effect_keeps {v : Verdict D} (h : v.effect s = .ok s') : Keeps s s' := by
  cases v with
  | readsOn event | stops event => cases h; exact emit_keeps s event
  | authenticates => cases h; exact ⟨rfl, rfl⟩
  | rejected | failed => cases h; exact disconnect_keeps .io _
  | undefined => cases h

theorem Keeps.listening (h : Keeps s s') (hl : Listening s) : Listening s' := ⟨h.1.trans hl.1, h.2.trans hl.2⟩

theorem step_listening {e : Event} (hl : Listening s) (h : Connection.step conv ex s e = some s') : Listening s' := by
  cases e with
  | registerOrderBookCallback => cases h; exact ⟨rfl, hl.2⟩
  | registerOrderBookDeltaCallback => cases h; exact ⟨hl.1, rfl⟩
  | connect attempt => cases h; exact (connect_keeps .user attempt s).listening hl
  | disconnect => cases h; exact (disconnect_keeps .user s).listening hl
  | subscribe symbols | unsubscribe symbols => cases h; cases ex <;> exact (request_keeps _ s).listening hl
  | writeCompletes =>
    simp only [Connection.step] at h
    split at h
    · cases h; exact hl
    · cases h
  | readCompletes completion =>
    obtain ⟨-, -, s₁, hm, rfl⟩ := completes_eq h
    refine (afterHandler_keeps s₁).listening ?_
    have hread : Listening { s with reads := s.reads - 1 } := hl
    cases completion with
    | message now doc =>
      rw [Exchange.onMessage_eq] at hm
      exact (effect_keeps hm).listening hread
    | readError attempt =>
      rw [readError_eq] at hm
      cases hm
      split
      · exact (connect_keeps ..).listening ((disconnect_keeps ..).listening hread)
      · exact hread

/-- A listening adapter calls back for every event of a message. -/
theorem delivers_message (hl : Listening s) (now : Int) (doc : Option Json) :
    delivers conv ex s (.readCompletes (.message now doc)) = (ex.verdict conv now doc).event.toList := by
  refine List.filter_eq_self.2 fun ev _ => ?_
  cases ev with
  | snapshot snapshot => exact hl.1
  | delta delta => exact hl.2

/-! ## The one stretch of reading -/

/-- In these phases no completion is handled, now or later. -/
def Phase.Quiet : Phase → Prop
  | .idle | .live true => False
  | _ => True

theorem step_quiet {p : Phase} {e : Event} (h : HasPhase s p) (hp : p.Quiet) (hs : step conv ex s e = some s') :
    (∃ p', HasPhase s' p' ∧ p'.Quiet) ∧ ∀ completion, e ≠ .readCompletes completion := by
  obtain ⟨p', hp', hn⟩ := step_phase h hs
  cases hn with
  | same he => exact ⟨⟨p, hp', hp⟩, he⟩
  | connects | readsOn | leaves | stopsReading | reconnects | loses => exact hp.elim
  | revives | disconnects => exact ⟨⟨_, hp', trivial⟩, nofun⟩

/-- Nothing completes in a quiet phase, and nothing is delivered. -/
theorem run_quiet {es : List Event} (h : Run (step conv ex) s es s') (hs : ∃ p, HasPhase s p ∧ p.Quiet) :
    (∀ completion, .readCompletes completion ∉ es) ∧ s'.calls = s.calls := by
  induction h with
  | nil => exact ⟨fun _ => List.not_mem_nil, rfl⟩
  | @cons s s₁ s' e es hst _ ih =>
    obtain ⟨p, hp, hq⟩ := hs
    obtain ⟨hquiet, hne⟩ := step_quiet hp hq hst
    obtain ⟨hes, hcalls⟩ := ih hquiet
    refine ⟨fun completion hm => ?_, ?_⟩
    · rcases List.mem_cons.1 hm with he | hm
      · exact hne completion he.symm
      · exact hes completion hm
    · rw [hcalls, step_calls hst]
      cases e with
      | readCompletes completion => exact absurd rfl (hne completion)
      | _ => exact List.append_nil _

/-- A completion leads to a quiet phase, unless it is a message after which the adapter reads on. -/
theorem completion_quiet {p : Phase} {completion : Completion} (h : HasPhase s p)
    (hs : step conv ex s (.readCompletes completion) = some s') :
    (∃ p', HasPhase s' p' ∧ p'.Quiet) ∨
      ∃ now doc ev, completion = .message now doc ∧ ex.verdict conv now doc = .readsOn ev := by
  obtain ⟨hr, hpos, s₁, hm, rfl⟩ := completes_eq hs
  cases reading_of_completes h hr hpos
  have hread : HasPhase { s with reads := s.reads - 1 } (.live false) := ⟨h.1, h.2.1, by simp [h.2.2]⟩
  cases completion with
  | readError attempt =>
    obtain ⟨⟨p', hp, hn⟩, -⟩ := readError_phase hread hm
    refine .inl ⟨p', afterHandler_phase hp, ?_⟩
    cases hn with
    | same he => exact absurd rfl (he _)
    | reconnects | loses => trivial
  | message now doc =>
    rw [Exchange.onMessage_eq] at hm
    cases hv : ex.verdict conv now doc with
    | readsOn ev => exact .inr ⟨now, doc, ev, rfl, hv⟩
    | stops ev =>
      rw [hv] at hm
      cases hm
      exact .inl ⟨.live false, afterHandler_phase (emit_phase hread ev), trivial⟩
    | authenticates =>
      rw [hv] at hm
      cases hm
      exact .inl ⟨.live false, afterHandler_phase hread, trivial⟩
    | rejected =>
      rw [hv] at hm
      cases hm
      have hrejected : HasPhase { s with reads := s.reads - 1, authenticated := false } (.live false) := hread
      exact .inl ⟨.stopped, afterHandler_phase (disconnect_stopped hrejected.1 .io), trivial⟩
    | failed =>
      rw [hv] at hm
      cases hm
      exact .inl ⟨.stopped, afterHandler_phase (disconnect_stopped hread.1 .io), trivial⟩
    | undefined =>
      rw [hv] at hm
      cases hm

/-- From a connected phase, a disconnect leads to a quiet one, and nothing leads back to where the first connect is
awaited. -/
theorem step_busy {p : Phase} {e : Event} (h : HasPhase s p) (hp : p ≠ .idle) (hs : step conv ex s e = some s') :
    ∃ p', HasPhase s' p' ∧ p' ≠ .idle ∧ (e = .disconnect → p'.Quiet) := by
  by_cases he : e = .disconnect
  · subst he
    cases hs
    refine ⟨.stopped, ?_, by simp, fun _ => trivial⟩
    cases p with
    | idle => exact absurd rfl hp
    | live reading => exact disconnect_stopped h.1 .user
    | stopped =>
      rw [Adapter.disconnect, if_neg (by rw [h.1]; exact Bool.false_ne_true)]
      exact h
    | revived => exact disconnect_stopped h.1 .user
  · obtain ⟨p', hp', hn⟩ := step_phase h hs
    refine ⟨p', hp', ?_, fun hd => absurd hd he⟩
    rintro rfl
    cases hn with
    | same => exact hp rfl

theorem run_busy {es : List Event} (h : Run (step conv ex) s es s') (hs : ∃ p, HasPhase s p ∧ p ≠ .idle) :
    ∃ p, HasPhase s' p ∧ p ≠ .idle :=
  h.invariant (I := fun s => ∃ p, HasPhase s p ∧ p ≠ .idle) (fun s e s' hI hst => by
    obtain ⟨p, hp, hidle⟩ := hI
    obtain ⟨p', hp', hidle', -⟩ := step_busy hp hidle hst
    exact ⟨p', hp', hidle'⟩) hs

/-- **One stretch of reading**: of two completions in a run, the earlier one is a message after which the adapter reads
on, and there is no disconnect between them. -/
theorem run_completions (pre mid post : List Event) {c c' : Completion}
    (h : Run (step conv ex) Adapter.constructed (pre ++ .readCompletes c :: (mid ++ .readCompletes c' :: post)) s) :
    (∃ now doc ev, c = .message now doc ∧ ex.verdict conv now doc = .readsOn ev) ∧ .disconnect ∉ mid := by
  obtain ⟨s₁, hpre, hrest⟩ := h.split
  obtain ⟨p, hp⟩ := run_phase hpre
  cases hrest with
  | @cons _ s₂ _ _ _ hs hrest =>
    constructor
    · rcases completion_quiet hp hs with hq | hread
      · exact absurd (List.mem_append_right _ List.mem_cons_self) ((run_quiet hrest hq).1 c')
      · exact hread
    · intro hd
      obtain ⟨hr, hpos, -⟩ := completes_eq hs
      cases reading_of_completes hp hr hpos
      obtain ⟨p₂, hp₂, hbusy, -⟩ := step_busy hp nofun hs
      obtain ⟨mid₁, mid₂, rfl⟩ := List.append_of_mem hd
      rw [List.append_assoc] at hrest
      obtain ⟨s₃, hmid, hrest⟩ := hrest.split
      obtain ⟨p₃, hp₃, hidle⟩ := run_busy hmid ⟨p₂, hp₂, hbusy⟩
      cases hrest with
      | cons hdisc hrest =>
        obtain ⟨p₄, hp₄, -, hq⟩ := step_busy hp₃ hidle hdisc
        exact absurd (List.mem_append_right _ List.mem_cons_self) ((run_quiet hrest ⟨p₄, hp₄, hq rfl⟩).1 c')

/-! ## Coinbase -/

/-- Coinbase calls no callback and reads on. -/
theorem coinbase_readsOn {now : Int} {doc : Option Json} {ev : Option (MarketEvent D)}
    (h : Exchange.coinbase.verdict conv now doc = .readsOn ev) : ev = none := by
  have hofRead : ∀ {α : Type} (event : α → MarketEvent D) (read : Outcome α),
      Verdict.ofRead event .stops read ≠ .readsOn ev := by
    intro α event read
    rcases read with (_ | _) | a <;> exact nofun
  simp only [Exchange.verdict, CoinbaseAdapter.verdict, CoinbaseAdapter.typeVerdict, CoinbaseAdapter.errorVerdict,
    CoinbaseAdapter.authenticateVerdict] at h
  repeat' split at h
  all_goals first | exact absurd h (hofRead _ _) | cases h <;> rfl

theorem delivers_length (s : Adapter D) (e : Event) : (delivers conv ex s e).length ≤ 1 := by
  cases e with
  | readCompletes completion =>
    cases completion with
    | readError attempt => exact Nat.zero_le 1
    | message now doc =>
      refine (List.length_filter_le ..).trans ?_
      cases (ex.verdict conv now doc).event <;> simp
  | _ => exact Nat.zero_le 1

/-- **Coinbase delivers once**: over the life of its adapter at most one callback is called. -/
theorem run_coinbase_calls {es : List Event} (h : Run (step conv .coinbase) Adapter.constructed es s) :
    s.calls.length ≤ 1 := by
  let I : Adapter D → Prop := fun s => ∃ p, HasPhase s p ∧ (p.Quiet ∧ s.calls.length ≤ 1 ∨ s.calls = [])
  have hstep : ∀ s e s', I s → step conv .coinbase s e = some s' → I s' := by
    rintro s e s' ⟨p, hp, ⟨hq, hlen⟩ | hnone⟩ hs
    · obtain ⟨⟨p', hp', hq'⟩, -⟩ := step_quiet hp hq hs
      rw [← (run_quiet (.single hs) ⟨p, hp, hq⟩).2] at hlen
      exact ⟨p', hp', .inl ⟨hq', hlen⟩⟩
    · have hcalls := step_calls hs
      rw [hnone, List.nil_append] at hcalls
      obtain ⟨p', hp', -⟩ := step_phase hp hs
      cases e with
      | readCompletes completion =>
        rcases completion_quiet hp hs with ⟨p₁, hp₁, hq₁⟩ | ⟨now, doc, ev, rfl, hv⟩
        · refine ⟨p₁, hp₁, .inl ⟨hq₁, ?_⟩⟩
          rw [hcalls]
          exact delivers_length s _
        · cases coinbase_readsOn hv
          refine ⟨p', hp', .inr ?_⟩
          rw [hcalls, delivers, hv]
          rfl
      | _ => exact ⟨p', hp', .inr hcalls⟩
  obtain ⟨p, -, ⟨-, hlen⟩ | hnone⟩ := h.invariant hstep ⟨.idle, constructed_idle, .inr rfl⟩
  · exact hlen
  · rw [hnone]
    exact Nat.zero_le 1

section Example

/-- An update of Binance without levels. -/
def emptyUpdate (u : Nat) : Json :=
  .object [("a", .array []), ("b", .array []), ("e", .string "depthUpdate"), ("s", .string "BTCUSDT"),
    ("u", .number_unsigned u)]

/-- Two updates, the first of them before the callback is there. -/
def lateCallback : List Event :=
  [.connect (.opens none), .readCompletes (.message 0 (some (emptyUpdate 1))), .registerOrderBookDeltaCallback,
    .readCompletes (.message 0 (some (emptyUpdate 2)))]

theorem lateCallback_calls : ∃ s : Adapter ℤ, Run (step default .binance) Adapter.constructed lateCallback s ∧
    s.calls = emitted (step default .binance) (delivers default .binance) Adapter.constructed lateCallback ∧
    s.calls = [.delta ⟨"BTCUSDT", [], [], 2⟩] := by
  have hrun : ∃ s : Adapter ℤ, Run (step default .binance) Adapter.constructed lateCallback s ∧
      s.calls = [.delta ⟨"BTCUSDT", [], [], 2⟩] := ⟨_, run_iff_exec.2 rfl, rfl⟩
  obtain ⟨s, h, hs⟩ := hrun
  exact ⟨s, h, run_calls h, hs⟩

theorem lateCallback_reads_on : ∃ ev : Option (MarketEvent ℤ),
    Exchange.binance.verdict default 0 (some (emptyUpdate 1)) = .readsOn ev := by
  have hrun : ∃ s : Adapter ℤ, Run (step default .binance) Adapter.constructed lateCallback s := ⟨_, run_iff_exec.2 rfl⟩
  obtain ⟨s, h⟩ := hrun
  obtain ⟨⟨now, doc, ev, hc, hv⟩, -⟩ :=
    run_completions [.connect (.opens none)] [.registerOrderBookDeltaCallback] [] h
  cases hc
  exact ⟨ev, hv⟩

/-- A snapshot of Coinbase without levels. -/
def emptySnapshot : Json :=
  .object [("asks", .array []), ("bids", .array []), ("product_id", .string "BTC-USD"), ("type", .string "snapshot")]

theorem emptySnapshot_calls : ∃ s : Adapter ℤ,
    Run (step default .coinbase) Adapter.constructed
      [.registerOrderBookCallback, .connect (.opens (some "jwt")), .readCompletes (.message 7 (some emptySnapshot))] s ∧
      s.calls = [.snapshot ⟨"BTC-USD", [], [], 7⟩] ∧ s.calls.length ≤ 1 := by
  have hrun : ∃ s : Adapter ℤ, Run (step default .coinbase) Adapter.constructed
      [.registerOrderBookCallback, .connect (.opens (some "jwt")), .readCompletes (.message 7 (some emptySnapshot))] s ∧
      s.calls = [.snapshot ⟨"BTC-USD", [], [], 7⟩] := ⟨_, run_iff_exec.2 rfl, rfl⟩
  obtain ⟨s, h, hs⟩ := hrun
  exact ⟨s, h, hs, run_coinbase_calls h⟩

end Example

end Connection

end CryptoHft
