import CryptoHft.Exchanges.Deliveries

/-!
# The two threads of an adapter

The user's thread and the IO thread in single steps: where a run of the connection takes a call or a handler as a whole,
here the IO thread is at work while the user's thread is in `disconnect` or in the destructor. The IO thread takes up
completions until the context is stopped; a handler that it has taken up runs on to its end, a reconnect included. The
body of `on_message` up to a `disconnect` is one step, and so is a `connect`.

* What holds between the steps is `Regular` (`run_regular`).
* A run of the connection is a run of the threads, in which nothing overlaps (`run_connection`).

Closing the stream is left out, and so are data races: on Binance `connected_` is no atomic.
-/

namespace CryptoHft

open Machine

/-- The IO thread handles it. -/
def Connection.Event.Handled : Connection.Event → Prop
  | .readCompletes _ | .writeCompletes => True
  | _ => False

instance : DecidablePred Connection.Event.Handled
  | .readCompletes _ | .writeCompletes => isTrue trivial
  | .registerOrderBookCallback | .registerOrderBookDeltaCallback | .connect _ | .disconnect => isFalse id
  | .subscribe _ | .unsubscribe _ => isFalse id

/-- Where the user's thread stands: between two calls; in `disconnect`, behind its test, with `connected_` cleared, or in
its join; in the destructor, before it lets go of the work guard, or in its join; or behind it. `last` marks the
destructor's own `disconnect`. -/
inductive UserPhase
  | free
  | clears (last : Bool)
  | stops (last : Bool)
  | joins (last : Bool)
  | resets
  | joinsLast
  | destroyed
deriving DecidableEq

/-- Where the IO thread stands: between two handlers, or in `on_message`: at its beginning, before `disconnect`, in
`disconnect` behind its test or with `connected_` cleared, or before the `connect` after it. -/
inductive IoPhase
  | waits
  | handles (completion : Completion)
  | disconnects (reconnect : Option Attempt)
  | clears (reconnect : Option Attempt)
  | stops (reconnect : Option Attempt)
  | connects (attempt : Attempt)

/-- After `disconnect` in `on_message`. -/
def IoPhase.after : Option Attempt → IoPhase
  | none => .waits
  | some attempt => .connects attempt

/-- An adapter with its user's thread and its IO thread. -/
structure Threads (D : Type) where
  adapter : Adapter D
  user : UserPhase
  io : IoPhase

namespace Threads

open Connection (Runs)

inductive Event
  | calls (ev : Connection.Event)
  | destroys
  | userGoesOn
  | takes (completion : Completion)
  | writeCompletes
  | ioGoesOn

variable {D : Type}

def ready : Threads D := ⟨.constructed, .free, .waits⟩

/-- The test in `disconnect`, called by the user or by the destructor. -/
def disconnects (last : Bool) (s : Threads D) : Threads D :=
  { s with user := if s.adapter.connected then .clears last else if last then .resets else .free }

/-- The user's thread goes on. A join waits for the IO thread to be out of `run`. -/
def userGoesOn (s : Threads D) : Option (Threads D) :=
  match s.user with
  | .free | .destroyed => none
  | .clears last => some { s with adapter := { s.adapter with connected := false }, user := .stops last }
  | .stops last => some { s with adapter := { s.adapter with iocStopped := true }, user := .joins last }
  | .joins last =>
    if s.adapter.ioThread = .running then none
    else
      some { s with
        adapter := { s.adapter with ioThread := .joined }
        user := if last then .resets else .free }
  | .resets => some { s with user := .joinsLast }
  | .joinsLast =>
    if s.adapter.ioThread = .running then none
    else some { s with adapter := { s.adapter with ioThread := .joined }, user := .destroyed }

/-- The work guard is gone. -/
def Released (s : Threads D) : Prop := s.user = .joinsLast ∨ s.user = .destroyed

instance (s : Threads D) : Decidable s.Released := inferInstanceAs (Decidable (_ ∨ _))

/-- `run` returns to a stopped context, and to one that has neither work nor a guard. -/
def LeavesRun (s : Threads D) : Prop :=
  s.adapter.ioThread = .running ∧
    (s.adapter.iocStopped = true ∨ s.Released ∧ s.adapter.reads = 0 ∧ s.adapter.writes = 0)

instance (s : Threads D) : Decidable s.LeavesRun := inferInstanceAs (Decidable (_ ∧ _))

variable (conv : Conversions D) (ex : Exchange)

/-- The body of `on_message`, up to a `disconnect` in it. -/
def handlesMessage (now : Int) (doc : Option Json) (s : Threads D) : Option (Threads D) :=
  match ex.verdict conv now doc with
  | .readsOn event => some { s with adapter := (s.adapter.emit event).doRead, io := .waits }
  | .stops event => some { s with adapter := s.adapter.emit event, io := .waits }
  | .authenticates => some { s with adapter := { s.adapter with authenticated := true }, io := .waits }
  | .rejected => some { s with adapter := { s.adapter with authenticated := false }, io := .disconnects none }
  | .failed => some { s with io := .disconnects none }
  | .undefined => none

/-- The IO thread goes on. It cannot join itself: `disconnect` catches the exception. -/
def ioGoesOn (s : Threads D) : Option (Threads D) :=
  match s.io with
  | .waits => if s.LeavesRun then some { s with adapter := { s.adapter with ioThread := .finished } } else none
  | .handles (.message now doc) => handlesMessage conv ex now doc s
  | .handles (.readError attempt) =>
    some { s with io := if s.adapter.connected then .disconnects (some attempt) else .waits }
  | .disconnects reconnect =>
    some { s with io := if s.adapter.connected then .clears reconnect else .after reconnect }
  | .clears reconnect => some { s with adapter := { s.adapter with connected := false }, io := .stops reconnect }
  | .stops reconnect => some { s with adapter := { s.adapter with iocStopped := true }, io := .after reconnect }
  | .connects attempt => some { s with adapter := (ex.connect .io attempt s.adapter).1, io := .waits }

def step (s : Threads D) : Event → Option (Threads D)
  | .calls ev =>
    if s.user = .free ∧ ¬ ev.Handled then
      match ev with
      | .disconnect => some (s.disconnects false)
      | ev => (Connection.step conv ex s.adapter ev).map fun adapter => { s with adapter }
    else none
  | .destroys => if s.user = .free then some (s.disconnects true) else none
  | .userGoesOn => s.userGoesOn
  | .takes completion =>
    match s.io with
    | .waits =>
      if Runs s.adapter ∧ 0 < s.adapter.reads then
        some { s with adapter := { s.adapter with reads := s.adapter.reads - 1 }, io := .handles completion }
      else none
    | _ => none
  | .writeCompletes =>
    match s.io with
    | .waits =>
      if Runs s.adapter ∧ 0 < s.adapter.writes then
        some { s with adapter := { s.adapter with writes := s.adapter.writes - 1 } }
      else none
    | _ => none
  | .ioGoesOn => s.ioGoesOn conv ex

variable {conv ex} {s s' : Threads D} {e : Event}

/-! ## What the IO thread can do -/

/-- The context is stopped, is about to be by the IO thread, or has nothing to complete. -/
def Ends (s : Threads D) : Prop :=
  s.adapter.iocStopped = true ∨ (∃ reconnect, s.io = .stops reconnect) ∨
    s.adapter.reads = 0 ∧ s.adapter.writes = 0 ∧ s.io = .waits

/-- What holds between the steps. -/
structure Regular (s : Threads D) : Prop where
  /-- Out of `run` the IO thread handles nothing. -/
  out : s.adapter.ioThread ≠ .running → s.io = .waits
  /-- An adapter that is not connected was never, or its context is stopped or about to be. -/
  unconnected : s.adapter.connected = false → s.Ends ∨ ∃ last, s.user = .stops last
  stopped : ∀ last, s.user = .joins last → s.adapter.iocStopped = true
  ends : s.user = .resets ∨ s.user = .joinsLast → s.Ends
  joined : s.user = .destroyed → s.adapter.ioThread = .joined

theorem handlesMessage_eq {now : Int} {doc : Option Json} (h : handlesMessage conv ex now doc s = some s') :
    s'.user = s.user ∧ s'.adapter.connected = s.adapter.connected ∧ s'.adapter.iocStopped = s.adapter.iocStopped ∧
      s'.adapter.ioThread = s.adapter.ioThread ∧ s'.adapter.calls.length ≤ s.adapter.calls.length + 1 ∧
      (s'.io = .waits ∨ s'.io = .disconnects none) := by
  have hemit : ∀ event, (s.adapter.emit event).connected = s.adapter.connected ∧
      (s.adapter.emit event).iocStopped = s.adapter.iocStopped ∧
      (s.adapter.emit event).ioThread = s.adapter.ioThread ∧
      (s.adapter.emit event).calls.length ≤ s.adapter.calls.length + 1 := by
    intro event
    rw [s.adapter.emit_eq event]
    refine ⟨rfl, rfl, rfl, ?_⟩
    have hlen := (List.length_filter_le s.adapter.wants event.toList).trans Option.length_toList_le
    dsimp only
    rw [List.length_append]
    omega
  unfold handlesMessage at h
  cases hv : ex.verdict conv now doc with
  | readsOn event =>
    rw [hv] at h
    cases h
    obtain ⟨hc, hi, ht, hl⟩ := hemit event
    exact ⟨rfl, hc, hi, ht, hl, .inl rfl⟩
  | stops event =>
    rw [hv] at h
    cases h
    obtain ⟨hc, hi, ht, hl⟩ := hemit event
    exact ⟨rfl, hc, hi, ht, hl, .inl rfl⟩
  | authenticates => rw [hv] at h; cases h; exact ⟨rfl, rfl, rfl, rfl, Nat.le_succ _, .inl rfl⟩
  | rejected | failed => rw [hv] at h; cases h; exact ⟨rfl, rfl, rfl, rfl, Nat.le_succ _, .inr rfl⟩
  | undefined => rw [hv] at h; cases h

/-- The steps of the IO thread. -/
inductive IoStep (conv : Conversions D) (ex : Exchange) (s : Threads D) : Threads D → Prop
  | leaves (hio : s.io = .waits) (h : s.LeavesRun) :
      IoStep conv ex s { s with adapter := { s.adapter with ioThread := .finished } }
  | handlesMessage {now doc} {t : Threads D} (hio : s.io = .handles (.message now doc))
      (h : handlesMessage conv ex now doc s = some t) : IoStep conv ex s t
  | handlesError {attempt} (hio : s.io = .handles (.readError attempt)) :
      IoStep conv ex s { s with io := if s.adapter.connected then .disconnects (some attempt) else .waits }
  | tests {reconnect} (hio : s.io = .disconnects reconnect) :
      IoStep conv ex s { s with io := if s.adapter.connected then .clears reconnect else .after reconnect }
  | clears {reconnect} (hio : s.io = .clears reconnect) :
      IoStep conv ex s { s with adapter := { s.adapter with connected := false }, io := .stops reconnect }
  | stops {reconnect} (hio : s.io = .stops reconnect) :
      IoStep conv ex s { s with adapter := { s.adapter with iocStopped := true }, io := .after reconnect }
  | connects {attempt} (hio : s.io = .connects attempt) :
      IoStep conv ex s { s with adapter := (ex.connect .io attempt s.adapter).1, io := .waits }

theorem ioGoesOn_iff : s.ioGoesOn conv ex = some s' ↔ IoStep conv ex s s' := by
  constructor
  · intro h
    unfold ioGoesOn at h
    split at h
    · next hio =>
      split at h
      · next hl => cases h; exact .leaves hio hl
      · cases h
    · next hio => exact .handlesMessage hio h
    · next hio => cases h; exact .handlesError hio
    · next hio => cases h; exact .tests hio
    · next hio => cases h; exact .clears hio
    · next hio => cases h; exact .stops hio
    · next hio => cases h; exact .connects hio
  · intro h
    unfold ioGoesOn
    cases h with
    | leaves hio h => simp only [hio, if_pos h]
    | handlesMessage hio h => simp only [hio, h]
    | handlesError hio => simp only [hio]
    | tests hio => simp only [hio]
    | clears hio => simp only [hio]
    | stops hio => simp only [hio]
    | connects hio => simp only [hio]

/-- Connecting stops nothing and calls nothing, and leaves the adapter connected or as unconnected as before. -/
theorem connect_keeps (ex : Exchange) (caller : Caller) (attempt : Attempt) (s : Adapter D) :
    (ex.connect caller attempt s).1.iocStopped = s.iocStopped ∧ (ex.connect caller attempt s).1.ioThread = s.ioThread ∧
      (ex.connect caller attempt s).1.calls = s.calls ∧
      ((ex.connect caller attempt s).1.connected = false → s.connected = false ∧
        (ex.connect caller attempt s).1.reads = s.reads ∧ (ex.connect caller attempt s).1.writes = s.writes) := by
  cases hc : s.connected with
  | true =>
    rw [Connection.connect_connected hc]
    exact ⟨rfl, rfl, rfl, fun h => by rw [hc] at h; cases h⟩
  | false =>
    by_cases ha : Connection.Succeeds ex attempt
    · obtain ⟨writes, written, he⟩ := Connection.connect_succeeds caller hc ha
      rw [he]
      exact ⟨rfl, rfl, rfl, nofun⟩
    · obtain ⟨transport, written, he⟩ := Connection.connect_fails caller hc ha
      rw [he]
      exact ⟨rfl, rfl, rfl, fun _ => ⟨rfl, rfl, rfl⟩⟩

theorem IoStep.user (h : IoStep conv ex s s') : s'.user = s.user := by
  cases h with
  | handlesMessage hio h => exact (handlesMessage_eq h).1
  | _ => rfl

theorem IoStep.stopped (h : IoStep conv ex s s') (hs : s.adapter.iocStopped = true) : s'.adapter.iocStopped = true := by
  cases h with
  | handlesMessage hio h => rw [(handlesMessage_eq h).2.2.1, hs]
  | stops hio => rfl
  | connects hio => rw [(connect_keeps ex .io _ s.adapter).1, hs]
  | _ => exact hs

theorem IoStep.ends (h : IoStep conv ex s s') (hs : s.Ends) : s'.Ends := by
  rcases hs with hs | ⟨reconnect, hr⟩ | ⟨hreads, hwrites, hw⟩
  · exact .inl (h.stopped hs)
  · cases h with
    | stops hio => exact .inl rfl
    | leaves hio | handlesMessage hio | handlesError hio | tests hio | clears hio | connects hio =>
      rw [hr] at hio
      cases hio
  · cases h with
    | leaves hio => exact .inr (.inr ⟨hreads, hwrites, hio⟩)
    | stops hio | handlesMessage hio | handlesError hio | tests hio | clears hio | connects hio =>
      rw [hw] at hio
      cases hio

/-- Out of `waits` the IO thread is running. -/
theorem Regular.running (hs : s.Regular) (h : s.io ≠ .waits) : s.adapter.ioThread = .running := by
  by_contra hr
  exact h (hs.out hr)

theorem IoStep.regular (h : IoStep conv ex s s') (hs : s.Regular) : s'.Regular := by
  have huser := h.user
  refine ⟨?_, ?_, ?_, ?_, ?_⟩
  · cases h with
    | leaves hio => exact fun _ => hio
    | handlesMessage hio h =>
      intro hr
      rw [(handlesMessage_eq h).2.2.2.1, hs.running (by rw [hio]; exact nofun)] at hr
      exact absurd rfl hr
    | connects hio => exact fun _ => rfl
    | handlesError hio | tests hio | clears hio | stops hio =>
      exact fun hr => absurd (hs.running (by rw [hio]; exact nofun)) hr
  · intro hc
    rw [huser]
    have hkept : s.adapter.connected = false → s'.Ends ∨ ∃ last, s.user = .stops last :=
      fun hc => (hs.unconnected hc).imp_left h.ends
    cases h with
    | handlesMessage hio h => exact hkept (by rw [← (handlesMessage_eq h).2.1, hc])
    | clears hio => exact .inl (.inr (.inl ⟨_, rfl⟩))
    | connects hio => exact hkept ((connect_keeps ex .io _ s.adapter).2.2.2 hc).1
    | leaves hio | handlesError hio | tests hio | stops hio => exact hkept hc
  · intro last hu
    exact h.stopped (hs.stopped last (huser ▸ hu))
  · intro hu
    exact h.ends (hs.ends (huser ▸ hu))
  · intro hu
    have hj := hs.joined (huser ▸ hu)
    have hw : s.io = .waits := hs.out (by rw [hj]; exact nofun)
    cases h with
    | leaves hio h => rw [h.1] at hj; cases hj
    | stops hio | handlesMessage hio | handlesError hio | tests hio | clears hio | connects hio =>
      rw [hw] at hio
      cases hio

/-! ## What the user can do -/

/-- A call of the user other than `disconnect`. -/
theorem called_eq {a a' : Adapter D} {ev : Connection.Event} (hh : ¬ ev.Handled) (hd : ev ≠ .disconnect)
    (h : Connection.step conv ex a ev = some a') :
    a'.iocStopped = a.iocStopped ∧ a'.ioThread = a.ioThread ∧ a'.calls = a.calls ∧
      (a'.connected = false → a.connected = false ∧ a'.reads = a.reads ∧ a'.writes = a.writes) := by
  have hrequest : ∀ message, (a.request message).1.iocStopped = a.iocStopped ∧
      (a.request message).1.ioThread = a.ioThread ∧ (a.request message).1.calls = a.calls ∧
      ((a.request message).1.connected = false → a.connected = false ∧
        (a.request message).1.reads = a.reads ∧ (a.request message).1.writes = a.writes) := by
    intro message
    unfold Adapter.request
    split
    · next hc => exact ⟨rfl, rfl, rfl, fun hc' => absurd (hc'.symm.trans hc) Bool.false_ne_true⟩
    · exact ⟨rfl, rfl, rfl, fun hc => ⟨hc, rfl, rfl⟩⟩
  cases ev with
  | registerOrderBookCallback | registerOrderBookDeltaCallback =>
    cases h
    exact ⟨rfl, rfl, rfl, fun hc => ⟨hc, rfl, rfl⟩⟩
  | connect attempt => cases h; exact connect_keeps ex .user attempt a
  | disconnect => exact absurd rfl hd
  | subscribe symbols | unsubscribe symbols => cases h; cases ex <;> exact hrequest _
  | readCompletes completion | writeCompletes => exact absurd trivial hh

theorem Regular.disconnects (hs : s.Regular) (hu : s.user = .free) (last : Bool) : (s.disconnects last).Regular := by
  unfold Threads.disconnects
  split
  · next hc => exact ⟨hs.out, fun hc' => absurd (hc'.symm.trans hc) Bool.false_ne_true, nofun, nofun, nofun⟩
  · next hc =>
    have hends : s.Ends := by
      rcases hs.unconnected (Bool.eq_false_iff.2 hc) with he | ⟨last', hl⟩
      · exact he
      · rw [hu] at hl
        cases hl
    refine ⟨hs.out, fun _ => .inl hends, fun _ hu => ?_, fun _ => hends, fun hu => ?_⟩ <;>
      cases last <;> cases hu

theorem Regular.calls {ev : Connection.Event} {adapter : Adapter D} (hs : s.Regular) (hu : s.user = .free)
    (hh : ¬ ev.Handled) (hd : ev ≠ .disconnect) (h : Connection.step conv ex s.adapter ev = some adapter) :
    ({ s with adapter } : Threads D).Regular := by
  obtain ⟨hstop, hthread, -, hidle⟩ := called_eq hh hd h
  refine ⟨fun hr => hs.out (by rwa [← hthread]), fun hc => ?_, fun last hl => ?_, fun hl => ?_, fun hl => ?_⟩
  · obtain ⟨hc', hreads, hwrites⟩ := hidle hc
    refine (hs.unconnected hc').imp_left ?_
    unfold Ends
    rw [hstop, hreads, hwrites]
    exact id
  · rw [hu] at hl
    cases hl
  · rw [hu] at hl
    rcases hl with hl | hl <;> cases hl
  · rw [hu] at hl
    cases hl

theorem Regular.userGoesOn (hs : s.Regular) (h : s.userGoesOn = some s') : s'.Regular := by
  unfold Threads.userGoesOn at h
  split at h
  · cases h
  · cases h
  · next last hu =>
    cases h
    exact ⟨hs.out, fun _ => .inr ⟨last, rfl⟩, nofun, nofun, nofun⟩
  · next last hu =>
    cases h
    exact ⟨hs.out, fun _ => .inl (.inl rfl), fun _ _ => rfl, fun _ => .inl rfl, nofun⟩
  · next last hu =>
    split at h
    · cases h
    · next hr =>
      cases h
      have hstop := hs.stopped last hu
      refine ⟨fun _ => hs.out hr, fun _ => .inl (.inl hstop), fun _ _ => hstop, fun _ => .inl hstop, fun _ => rfl⟩
  · next hu =>
    cases h
    exact ⟨hs.out, fun _ => .inl (hs.ends (.inl hu)), nofun, fun _ => hs.ends (.inl hu), nofun⟩
  · next hu =>
    split at h
    · cases h
    · next hr =>
      cases h
      have hw := hs.out hr
      refine ⟨fun _ => hw, fun _ => .inl ?_, nofun, nofun, fun _ => rfl⟩
      rcases hs.ends (.inr hu) with he | ⟨reconnect, he⟩ | he
      · exact .inl he
      · rw [hw] at he
        cases he
      · exact .inr (.inr he)

/-- Where something can be taken up, nothing ends. -/
theorem not_ends (hw : s.io = .waits) (hr : Runs s.adapter) (hpos : 0 < s.adapter.reads ∨ 0 < s.adapter.writes) :
    ¬ s.Ends := by
  rintro (he | ⟨reconnect, he⟩ | ⟨hreads, hwrites, -⟩)
  · rw [hr.1] at he
    cases he
  · rw [hw] at he
    cases he
  · omega

/-- Something is taken up: nobody waits in a join for the thread to leave. -/
theorem Regular.takes {adapter : Adapter D} {io : IoPhase} (hs : s.Regular) (hw : s.io = .waits) (hr : Runs s.adapter)
    (hpos : 0 < s.adapter.reads ∨ 0 < s.adapter.writes) (hc : adapter.connected = s.adapter.connected)
    (hthread : adapter.ioThread = s.adapter.ioThread) : (⟨adapter, s.user, io⟩ : Threads D).Regular := by
  have hnot := not_ends hw hr hpos
  refine ⟨fun hr' => absurd hr.2 (by rwa [← hthread]), fun hc' => ?_, fun last hl => ?_, fun hl => ?_, fun hl => ?_⟩
  · exact .inr ((hs.unconnected (by rw [← hc, hc'])).resolve_left hnot)
  · exact absurd (.inl (hs.stopped last hl)) hnot
  · exact absurd (hs.ends hl) hnot
  · have hjoined := hs.joined hl
    rw [hr.2] at hjoined
    cases hjoined

/-! ## Runs -/

/-- The steps of the two threads. -/
inductive Step (conv : Conversions D) (ex : Exchange) (s : Threads D) : Event → Threads D → Prop
  | disconnects (hu : s.user = .free) : Step conv ex s (.calls .disconnect) (s.disconnects false)
  | calls {ev adapter} (hu : s.user = .free) (hh : ¬ ev.Handled) (hd : ev ≠ .disconnect)
      (h : Connection.step conv ex s.adapter ev = some adapter) : Step conv ex s (.calls ev) { s with adapter }
  | destroys (hu : s.user = .free) : Step conv ex s .destroys (s.disconnects true)
  | userGoesOn {t : Threads D} (h : s.userGoesOn = some t) : Step conv ex s .userGoesOn t
  | takes {completion} (hw : s.io = .waits) (hr : Runs s.adapter) (hpos : 0 < s.adapter.reads) :
      Step conv ex s (.takes completion)
        { s with adapter := { s.adapter with reads := s.adapter.reads - 1 }, io := .handles completion }
  | writeCompletes (hw : s.io = .waits) (hr : Runs s.adapter) (hpos : 0 < s.adapter.writes) :
      Step conv ex s .writeCompletes { s with adapter := { s.adapter with writes := s.adapter.writes - 1 } }
  | ioGoesOn {t : Threads D} (h : IoStep conv ex s t) : Step conv ex s .ioGoesOn t

theorem step_cases (h : step conv ex s e = some s') : Step conv ex s e s' := by
  cases e with
  | calls ev =>
    simp only [step] at h
    split at h
    · next hu =>
      split at h
      · cases h; exact .disconnects hu.1
      · next hd =>
        obtain ⟨adapter, ha, rfl⟩ := Option.map_eq_some_iff.1 h
        exact .calls hu.1 hu.2 hd ha
    · cases h
  | destroys =>
    simp only [step] at h
    split at h
    · next hu => cases h; exact .destroys hu
    · cases h
  | userGoesOn => exact .userGoesOn h
  | takes completion =>
    simp only [step] at h
    split at h
    · next hw =>
      split at h
      · next hr => cases h; exact .takes hw hr.1 hr.2
      · cases h
    · cases h
  | writeCompletes =>
    simp only [step] at h
    split at h
    · next hw =>
      split at h
      · next hr => cases h; exact .writeCompletes hw hr.1 hr.2
      · cases h
    · cases h
  | ioGoesOn => exact .ioGoesOn (ioGoesOn_iff.1 h)

theorem step_regular (hs : s.Regular) (hst : step conv ex s e = some s') : s'.Regular := by
  cases step_cases hst with
  | disconnects hu => exact hs.disconnects hu false
  | calls hu hh hd h => exact hs.calls hu hh hd h
  | destroys hu => exact hs.disconnects hu true
  | userGoesOn h => exact hs.userGoesOn h
  | takes hw hr hpos => exact hs.takes hw hr (.inl hpos) rfl rfl
  | writeCompletes hw hr hpos => exact hs.takes hw hr (.inr hpos) rfl rfl
  | ioGoesOn h => exact h.regular hs

theorem ready_regular : (ready : Threads D).Regular := by
  have hends : (ready : Threads D).Ends := .inr (.inr ⟨rfl, rfl, rfl⟩)
  exact ⟨fun _ => rfl, fun _ => .inl hends, nofun, fun _ => hends, nofun⟩

theorem run_regular {es : List Event} (h : Run (step conv ex) ready es s) : s.Regular :=
  h.invariant (fun _ _ _ hs hst => step_regular hs hst) ready_regular

/-! ## Runs of the connection -/

/-- A run leads from the first state to the second. -/
def Leads (conv : Conversions D) (ex : Exchange) (s s' : Threads D) : Prop := ∃ es, Run (step conv ex) s es s'

theorem Leads.refl (s : Threads D) : Leads conv ex s s := ⟨[], .nil s⟩

theorem Leads.trans {s'' : Threads D} (h : Leads conv ex s s') (h' : Leads conv ex s' s'') : Leads conv ex s s'' := by
  obtain ⟨es, hr⟩ := h
  obtain ⟨es', hr'⟩ := h'
  exact ⟨es ++ es', hr.append hr'⟩

theorem Leads.step (h : step conv ex s e = some s') : Leads conv ex s s' := ⟨[e], .single h⟩

theorem IoStep.leads (h : IoStep conv ex s s') : Leads conv ex s s' := .step (e := .ioGoesOn) (ioGoesOn_iff.2 h)

/-- Between two calls and two handlers. -/
def between (a : Adapter D) : Threads D := ⟨a, .free, .waits⟩

variable {a a' : Adapter D}

/-- `disconnect` on the IO thread, with no step of the user in between. -/
theorem leads_disconnects (a : Adapter D) (reconnect : Option Attempt) :
    Leads conv ex ⟨a, .free, .disconnects reconnect⟩ ⟨a.disconnect .io, .free, .after reconnect⟩ := by
  have htests : IoStep conv ex ⟨a, .free, .disconnects reconnect⟩ _ := .tests rfl
  refine htests.leads.trans ?_
  unfold Adapter.disconnect
  dsimp only
  split
  · have hclears : IoStep conv ex ⟨a, .free, .clears reconnect⟩ _ := .clears rfl
    have hstops : IoStep conv ex ⟨{ a with connected := false }, .free, .stops reconnect⟩ _ := .stops rfl
    exact hclears.leads.trans hstops.leads
  · exact .refl _

theorem disconnect_ioThread (a : Adapter D) : (a.disconnect .io).ioThread = a.ioThread := by
  unfold Adapter.disconnect
  split <;> rfl

theorem emit_ioThread (a : Adapter D) (event : Option (MarketEvent D)) : (a.emit event).ioThread = a.ioThread := by
  rw [a.emit_eq event]

/-- A handler keeps the IO thread in `run`. -/
theorem onMessage_ioThread {completion : Completion} (h : ex.onMessage conv completion a = .ok a') :
    a'.ioThread = a.ioThread := by
  cases completion with
  | readError attempt =>
    rw [Connection.readError_eq] at h
    cases h
    split
    · exact (connect_keeps ex .io attempt _).2.1.trans (disconnect_ioThread a)
    · rfl
  | message now doc =>
    rw [Exchange.onMessage_eq] at h
    cases hv : ex.verdict conv now doc with
    | readsOn event | stops event => rw [hv] at h; cases h; exact emit_ioThread a event
    | authenticates => rw [hv] at h; cases h; rfl
    | rejected | failed => rw [hv] at h; cases h; exact disconnect_ioThread _
    | undefined => rw [hv] at h; cases h

/-- A handler, with no step of the user in between. -/
theorem leads_handles {completion : Completion} (h : ex.onMessage conv completion a = .ok a') :
    Leads conv ex ⟨a, .free, .handles completion⟩ (between a') := by
  cases completion with
  | readError attempt =>
    rw [Connection.readError_eq] at h
    cases h
    have herror : IoStep conv ex ⟨a, .free, .handles (.readError attempt)⟩ _ := .handlesError rfl
    refine herror.leads.trans ?_
    dsimp only
    split
    · have hconnects : IoStep conv ex ⟨a.disconnect .io, .free, .connects attempt⟩ _ := .connects rfl
      exact (leads_disconnects a (some attempt)).trans hconnects.leads
    · exact .refl _
  | message now doc =>
    rw [Exchange.onMessage_eq] at h
    cases hv : ex.verdict conv now doc with
    | readsOn | stops | authenticates =>
      rw [hv] at h
      cases h
      refine .step (e := .ioGoesOn) ?_
      simp only [step, ioGoesOn, handlesMessage, hv, between]
    | rejected =>
      rw [hv] at h
      cases h
      have hmessage : step conv ex ⟨a, .free, .handles (.message now doc)⟩ .ioGoesOn =
          some ⟨{ a with authenticated := false }, .free, .disconnects none⟩ := by
        simp only [step, ioGoesOn, handlesMessage, hv]
      exact (Leads.step hmessage).trans (leads_disconnects _ none)
    | failed =>
      rw [hv] at h
      cases h
      have hmessage : step conv ex ⟨a, .free, .handles (.message now doc)⟩ .ioGoesOn =
          some ⟨a, .free, .disconnects none⟩ := by
        simp only [step, ioGoesOn, handlesMessage, hv]
      exact (Leads.step hmessage).trans (leads_disconnects _ none)
    | undefined => rw [hv] at h; cases h

/-- The end of a handler. -/
theorem leads_afterHandler (hr : a.ioThread = .running) :
    Leads conv ex (between a) (between (Connection.afterHandler a)) := by
  unfold Connection.afterHandler
  split
  · next hs =>
    have hleaves : IoStep conv ex (between a) _ := .leaves rfl ⟨hr, .inl hs⟩
    exact hleaves.leads
  · exact .refl _

/-- A join, with the IO thread between two handlers of a stopped context. -/
theorem leads_joins (a : Adapter D) (hs : a.iocStopped = true) :
    Leads conv ex ⟨a, .joins false, .waits⟩ (between { a with ioThread := .joined }) := by
  have hjoins : ∀ b : Adapter D, b.ioThread ≠ .running →
      step conv ex ⟨b, .joins false, .waits⟩ .userGoesOn = some (between { b with ioThread := .joined }) := by
    intro b hb
    simp only [step, userGoesOn, if_neg hb, between, Bool.false_eq_true, ↓reduceIte]
  by_cases hr : a.ioThread = .running
  · have hleaves : IoStep conv ex ⟨a, .joins false, .waits⟩ _ := .leaves rfl ⟨hr, .inl hs⟩
    exact hleaves.leads.trans (.step (hjoins { a with ioThread := .finished } nofun))
  · exact .step (hjoins a hr)

/-- `disconnect` of the user, with the IO thread between two handlers. -/
theorem leads_disconnect (a : Adapter D) : Leads conv ex (between a) (between (a.disconnect .user)) := by
  have htests : step conv ex (between a) (.calls .disconnect) = some (disconnects false (between a)) := by
    simp only [step, between, Connection.Event.Handled, not_false_eq_true, and_self, ↓reduceIte]
  refine (Leads.step htests).trans ?_
  cases hc : a.connected with
  | false =>
    have hsame : disconnects false (between a) = between a := by
      simp only [disconnects, between, hc, Bool.false_eq_true, ↓reduceIte]
    have hsame' : a.disconnect .user = a := by simp only [Adapter.disconnect, hc, Bool.false_eq_true, ↓reduceIte]
    rw [hsame, hsame']
    exact .refl _
  | true =>
    have hbehind : disconnects false (between a) = ⟨a, .clears false, .waits⟩ := by
      simp only [disconnects, between, hc, ↓reduceIte]
    rw [hbehind, Adapter.disconnect, if_pos hc]
    have hclears : step conv ex ⟨a, .clears false, .waits⟩ .userGoesOn =
        some ⟨{ a with connected := false }, .stops false, .waits⟩ := rfl
    have hstops : step conv ex ⟨{ a with connected := false }, .stops false, .waits⟩ .userGoesOn =
        some ⟨{ a with connected := false, iocStopped := true }, .joins false, .waits⟩ := rfl
    refine (Leads.step hclears).trans ((Leads.step hstops).trans ?_)
    exact leads_joins { a with connected := false, iocStopped := true } rfl

/-- **Refinement**: a step of the connection is a run of the threads, in which nothing overlaps. -/
theorem step_connection {ev : Connection.Event} (h : Connection.step conv ex a ev = some a') :
    Leads conv ex (between a) (between a') := by
  have hcalls : ¬ ev.Handled → ev ≠ .disconnect → Leads conv ex (between a) (between a') := by
    intro hh hd
    refine .step (e := .calls ev) ?_
    cases ev with
    | disconnect => exact absurd rfl hd
    | readCompletes | writeCompletes => exact absurd trivial hh
    | registerOrderBookCallback | registerOrderBookDeltaCallback | connect | subscribe | unsubscribe =>
      simp only [step, between, hh, not_false_eq_true, and_self, ↓reduceIte, h, Option.map_some]
  cases ev with
  | registerOrderBookCallback | registerOrderBookDeltaCallback | connect | subscribe | unsubscribe =>
    exact hcalls id nofun
  | disconnect => cases h; exact leads_disconnect a
  | writeCompletes =>
    simp only [Connection.step] at h
    split at h
    · next hr =>
      cases h
      refine .step (e := .writeCompletes) ?_
      simp only [step, between, hr, and_self, ↓reduceIte]
    · cases h
  | readCompletes completion =>
    obtain ⟨hr, hpos, a₁, hm, rfl⟩ := Connection.completes_eq h
    have htakes : step conv ex (between a) (.takes completion) =
        some ⟨{ a with reads := a.reads - 1 }, .free, .handles completion⟩ := by
      simp only [step, between, hr, hpos, and_self, ↓reduceIte]
    have hrunning : a₁.ioThread = .running := (onMessage_ioThread hm).trans hr.2
    exact (Leads.step htakes).trans ((leads_handles hm).trans (leads_afterHandler hrunning))

/-- The runs of the connection are runs of the threads. -/
theorem run_connection {evs : List Connection.Event} (h : Run (Connection.step conv ex) a evs a') :
    Leads conv ex (between a) (between a') := by
  induction h with
  | nil => exact .refl _
  | cons hst _ ih => exact (step_connection hst).trans ih

end Threads

end CryptoHft
