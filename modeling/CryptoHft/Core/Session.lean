import CryptoHft.Core.MarketDataEngine
import CryptoHft.Lib.Machine

/-!
# Sessions of the engine: handlers, dispatcher and stop

The adapter threads, the dispatcher thread and the owner of the engine run concurrently. A handler call is two steps:
it updates the book and fills its `MarketUpdate`, then it enqueues it (`callback_eq` ties the two to the handlers). The
dispatcher tests `running`, dequeues, and passes the update to the callback; `stop` clears `running`, and returns when
the dispatcher has left its loop. One owner calls `initializeEngine` and `stop`; the queue outlives both.

* For each thread, what was delivered, what the dispatcher holds and what is still queued are together the updates the
  thread has enqueued, in its order (`Conserved`, `step_conserved`).
* Once `running` is false, the dispatcher delivers what it holds and at most one update more (`step_settled`).
* When `stop` has returned nothing is held, and before the next `initializeEngine` nothing is delivered and the queue
  keeps what it has (`run_absent`).
-/

namespace CryptoHft

open Machine

variable {T D : Type} [LinearOrder D]

/-! ## Handler calls -/

namespace MarketDataEngine

variable [Zero D]

/-- The first step of a call: the engine with the book updated, and the update to enqueue. A call for an unknown symbol
has none. -/
def start (uninit : MarketUpdate D) (e : MarketDataEngine T D) (ev : MarketEvent D) :
    MarketDataEngine T D × Option (MarketUpdate D) :=
  match e.getOrderBook ev.symbol with
  | none => (e, none)
  | some b =>
    ({ e with orderBooks := Function.update e.orderBooks ev.symbol (some (ev.book b)) },
      some (ev.update uninit (ev.book b)))

def enqueue (thread : T) (e : MarketDataEngine T D) (update : MarketUpdate D) : MarketDataEngine T D :=
  { e with updateQueue := ProducerQueue.enqueue thread update e.updateQueue }

/-- A handler is its two steps. -/
theorem callback_eq (uninit : MarketUpdate D) (thread : T) (e : MarketDataEngine T D) (ev : MarketEvent D) :
    e.callback uninit thread ev =
      match e.start uninit ev with
      | (e', none) => e'
      | (e', some update) => e'.enqueue thread update := by
  cases ev with
  | snapshot s =>
    simp only [callback, handleOrderBookSnapshot, start, MarketEvent.symbol]
    cases e.getOrderBook s.symbol <;> rfl
  | delta d =>
    simp only [callback, handleOrderBookDelta, start, MarketEvent.symbol]
    cases e.getOrderBook d.symbol <;> rfl

end MarketDataEngine

/-! ## The machine -/

/-- Where the dispatcher thread stands in its loop; `none` when there is no thread to join. -/
inductive Dispatcher (T D : Type)
  | none
  | test
  | dequeue
  | holding (thread : T) (update : MarketUpdate D)
  | finished

structure Session (T D : Type) [LinearOrder D] where
  engine : MarketDataEngine T D
  dispatcher : Dispatcher T D
  /-- The owner is inside `stop`, waiting for the dispatcher. -/
  stopping : Bool
  /-- The update that a thread has filled and not yet enqueued. -/
  inFlight : T → Option (MarketUpdate D)
  /-- The updates passed to the callback, oldest first. -/
  delivered : List (T × MarketUpdate D)
  /-- The updates enqueued, oldest first. -/
  enqueued : List (T × MarketUpdate D)

namespace Session

inductive Event (T D : Type)
  | initializeEngine (symbols : List String)
  | call (thread : T) (uninit : MarketUpdate D) (ev : MarketEvent D)
  | enqueue (thread : T)
  | test
  | dequeue (thread : T)
  | miss
  | deliver
  | stop
  | stopReturns

/-- A constructed engine with a callback. -/
def ready : Session T D := ⟨MarketDataEngine.constructed.registerCallback, .none, false, fun _ => none, [], []⟩

variable [DecidableEq T] [Zero D]

/-- `dequeue` is a `try_dequeue` that found something, `miss` one that did not, `stopReturns` the return of a `stop` that
found the engine running; any other `stop` returns at once. -/
def step (s : Session T D) : Event T D → Option (Session T D)
  | .initializeEngine symbols =>
    if s.stopping then none
    else if s.engine.running then some s
    else some { s with engine := s.engine.initializeEngine symbols, dispatcher := .test }
  | .call thread uninit ev =>
    match s.inFlight thread with
    | some _ => none
    | none =>
      some { s with
        engine := (s.engine.start uninit ev).1
        inFlight := Function.update s.inFlight thread (s.engine.start uninit ev).2 }
  | .enqueue thread =>
    match s.inFlight thread with
    | none => none
    | some update =>
      some { s with
        engine := s.engine.enqueue thread update
        inFlight := Function.update s.inFlight thread none
        enqueued := s.enqueued ++ [(thread, update)] }
  | .test =>
    match s.dispatcher with
    | .test => some { s with dispatcher := if s.engine.running then .dequeue else .finished }
    | _ => none
  | .dequeue thread =>
    match s.dispatcher, ProducerQueue.dequeue thread s.engine.updateQueue with
    | .dequeue, some (update, queue) =>
      some { s with engine := { s.engine with updateQueue := queue }, dispatcher := .holding thread update }
    | _, _ => none
  | .miss =>
    match s.dispatcher with
    | .dequeue => some { s with dispatcher := .test }
    | _ => none
  | .deliver =>
    match s.dispatcher with
    | .holding thread update =>
      some { s with
        dispatcher := .test
        delivered := if s.engine.updateCallback then s.delivered ++ [(thread, update)] else s.delivered }
    | _ => none
  | .stop =>
    if s.engine.running then some { s with engine := { s.engine with running := false }, stopping := true }
    else some s
  | .stopReturns =>
    match s.stopping, s.dispatcher with
    | true, .finished => some { s with dispatcher := .none, stopping := false }
    | _, _ => none

/-! ## Steps -/

omit [DecidableEq T] [Zero D]

/-- The update that the dispatcher holds. -/
def held (s : Session T D) : Option (T × MarketUpdate D) :=
  match s.dispatcher with
  | .holding thread update => some (thread, update)
  | _ => none

/-- The updates delivered, and the one held. -/
def settled (s : Session T D) : List (T × MarketUpdate D) := s.delivered ++ s.held.toList

/-- One if the dispatcher has tested `running` and not yet dequeued. -/
def turns (s : Session T D) : Nat :=
  match s.dispatcher with
  | .dequeue => 1
  | _ => 0

/-- The session as a line of updates. -/
def line (s : Session T D) : ProducerQueue.Line T (MarketUpdate D) :=
  ⟨s.enqueued, s.engine.updateQueue, s.held, s.delivered⟩

/-- The owner waits only for an engine that does not run, and joins its dispatcher; the callback is there. -/
structure Regular (s : Session T D) : Prop where
  callback : s.engine.updateCallback = true
  stopping : s.stopping = true → s.engine.running = false
  joined : s.stopping = false → s.engine.running = false → s.dispatcher = .none

theorem ready_regular : (ready : Session T D).Regular := ⟨rfl, nofun, fun _ _ => rfl⟩

section Steps

variable [Zero D]

theorem start_queue (uninit : MarketUpdate D) (e : MarketDataEngine T D) (ev : MarketEvent D) :
    (e.start uninit ev).1.updateQueue = e.updateQueue := by
  unfold MarketDataEngine.start
  cases e.getOrderBook ev.symbol <;> rfl

theorem start_running (uninit : MarketUpdate D) (e : MarketDataEngine T D) (ev : MarketEvent D) :
    (e.start uninit ev).1.running = e.running := by
  unfold MarketDataEngine.start
  cases e.getOrderBook ev.symbol <;> rfl

theorem start_updateCallback (uninit : MarketUpdate D) (e : MarketDataEngine T D) (ev : MarketEvent D) :
    (e.start uninit ev).1.updateCallback = e.updateCallback := by
  unfold MarketDataEngine.start
  cases e.getOrderBook ev.symbol <;> rfl

variable [DecidableEq T]

/-- The enabled steps, one constructor for each branch of `step`. -/
inductive Moves (s : Session T D) : Event T D → Session T D → Prop
  | alreadyInitialized {symbols} (hs : s.stopping = false) (hr : s.engine.running = true) :
      Moves s (.initializeEngine symbols) s
  | initializes {symbols} (hs : s.stopping = false) (hr : s.engine.running = false) :
      Moves s (.initializeEngine symbols)
        { s with engine := s.engine.initializeEngine symbols, dispatcher := .test }
  | calls {thread} (uninit : MarketUpdate D) (ev : MarketEvent D) (hf : s.inFlight thread = none) :
      Moves s (.call thread uninit ev)
        { s with
          engine := (s.engine.start uninit ev).1
          inFlight := Function.update s.inFlight thread (s.engine.start uninit ev).2 }
  | enqueues {thread update} (hf : s.inFlight thread = some update) :
      Moves s (.enqueue thread)
        { s with
          engine := s.engine.enqueue thread update
          inFlight := Function.update s.inFlight thread none
          enqueued := s.enqueued ++ [(thread, update)] }
  | tests (hd : s.dispatcher = .test) :
      Moves s .test { s with dispatcher := if s.engine.running then .dequeue else .finished }
  | dequeues {thread update queue} (hd : s.dispatcher = .dequeue)
      (hq : ProducerQueue.dequeue thread s.engine.updateQueue = some (update, queue)) :
      Moves s (.dequeue thread)
        { s with engine := { s.engine with updateQueue := queue }, dispatcher := .holding thread update }
  | misses (hd : s.dispatcher = .dequeue) : Moves s .miss { s with dispatcher := .test }
  | delivers {thread update} (hd : s.dispatcher = .holding thread update) :
      Moves s .deliver
        { s with
          dispatcher := .test
          delivered := if s.engine.updateCallback then s.delivered ++ [(thread, update)] else s.delivered }
  | stopsIdle (hr : s.engine.running = false) : Moves s .stop s
  | stops (hr : s.engine.running = true) :
      Moves s .stop { s with engine := { s.engine with running := false }, stopping := true }
  | stopReturns (hs : s.stopping = true) (hd : s.dispatcher = .finished) :
      Moves s .stopReturns { s with dispatcher := .none, stopping := false }

variable {s s' : Session T D} {ev : Event T D}

theorem moves_of_step (h : step s ev = some s') : Moves s ev s' := by
  cases ev with
  | initializeEngine symbols =>
    rw [step] at h
    split at h
    · cases h
    · rename_i hs
      rw [Bool.not_eq_true] at hs
      split at h
      · rename_i hr; cases h; exact .alreadyInitialized hs hr
      · rename_i hr; cases h; exact .initializes hs (Bool.not_eq_true _ ▸ hr)
  | call thread uninit ev =>
    simp only [step] at h
    cases hf : s.inFlight thread with
    | some _ => simp [hf] at h
    | none => simp only [hf] at h; cases h; exact .calls uninit ev hf
  | enqueue thread =>
    simp only [step] at h
    cases hf : s.inFlight thread with
    | none => simp [hf] at h
    | some update => simp only [hf] at h; cases h; exact .enqueues hf
  | test =>
    simp only [step] at h
    cases hd : s.dispatcher <;> simp only [hd, reduceCtorEq] at h
    cases h; exact .tests hd
  | dequeue thread =>
    simp only [step] at h
    cases hd : s.dispatcher <;> simp only [hd, reduceCtorEq] at h
    cases hq : ProducerQueue.dequeue thread s.engine.updateQueue with
    | none => simp [hq] at h
    | some r => simp only [hq] at h; cases h; exact .dequeues hd hq
  | miss =>
    simp only [step] at h
    cases hd : s.dispatcher <;> simp only [hd, reduceCtorEq] at h
    cases h; exact .misses hd
  | deliver =>
    simp only [step] at h
    cases hd : s.dispatcher <;> simp only [hd, reduceCtorEq] at h
    cases h; exact .delivers hd
  | stop =>
    rw [step] at h
    split at h
    · rename_i hr; cases h; exact .stops hr
    · rename_i hr; cases h; exact .stopsIdle (Bool.not_eq_true _ ▸ hr)
  | stopReturns =>
    simp only [step] at h
    cases hs : s.stopping with
    | false => simp [hs] at h
    | true =>
      cases hd : s.dispatcher <;> simp only [hs, hd, reduceCtorEq] at h
      cases h; exact .stopReturns hs hd

omit [Zero D] [DecidableEq T] in
/-- A dispatcher that stands in its loop has not been joined. -/
theorem Regular.update (hs : s.Regular) {d : Dispatcher T D} (hd : s.dispatcher = d) (hne : d ≠ .none)
    {queue : List (T × MarketUpdate D)} {d' : Dispatcher T D} {log : List (T × MarketUpdate D)} :
    Regular { s with
      engine := { s.engine with updateQueue := queue }, dispatcher := d', delivered := log } where
  callback := hs.callback
  stopping := hs.stopping
  joined h hr := absurd (hd.symm.trans (hs.joined h hr)) hne

theorem step_regular (hs : s.Regular) (h : step s ev = some s') : s'.Regular := by
  cases moves_of_step h with
  | alreadyInitialized => exact hs
  | initializes hst hr =>
    refine ⟨?_, fun h => ?_, fun _ h => ?_⟩
    · simp [MarketDataEngine.initializeEngine, hr, hs.callback]
    · simp [hst] at h
    · simp [MarketDataEngine.initializeEngine, hr] at h
  | calls uninit ev =>
    refine ⟨(start_updateCallback uninit _ ev).trans hs.callback, fun h => ?_, fun h hr => ?_⟩
    · exact (start_running uninit _ ev).trans (hs.stopping h)
    · exact hs.joined h ((start_running uninit _ ev).symm.trans hr)
  | enqueues => exact ⟨hs.callback, hs.stopping, hs.joined⟩
  | tests hd => exact hs.update hd (by simp)
  | dequeues hd => exact hs.update hd (by simp)
  | misses hd => exact hs.update hd (by simp)
  | delivers hd => exact hs.update hd (by simp)
  | stopsIdle => exact hs
  | stops => exact ⟨hs.callback, fun _ => rfl, fun h => Bool.noConfusion h⟩
  | stopReturns => exact ⟨hs.callback, fun h => Bool.noConfusion h, fun _ _ => rfl⟩

/-- Each step moves the line by at most one of its steps. -/
theorem step_line (hs : s.Regular) (h : step s ev = some s') :
    s'.line = s.line ∨ ProducerQueue.Line.Step s.line s'.line := by
  cases moves_of_step h with
  | alreadyInitialized => exact .inl rfl
  | initializes hst hr =>
    refine .inl ?_
    simp [line, held, MarketDataEngine.initializeEngine, hr, hs.joined hst hr]
  | calls =>
    refine .inl ?_
    simp only [line, start_queue]
    rfl
  | enqueues => exact .inr (.enter s.line _ _)
  | tests hd =>
    refine .inl ?_
    cases hr : s.engine.running <;> simp [line, held, hd]
  | dequeues hd hq => exact .inr (.take s.line (by simp [line, held, hd]) hq)
  | misses hd => exact .inl (by simp [line, held, hd])
  | @delivers thread update hd =>
    have hstep := ProducerQueue.Line.Step.leave s.line (x := (thread, update)) (by simp [line, held, hd])
    simp only [hs.callback, ↓reduceIte]
    exact .inr hstep
  | stopsIdle | stops => exact .inl rfl
  | stopReturns _ hd => exact .inl (by simp [line, held, hd])

/-- While the owner waits, an update is dequeued only on a test made before. -/
theorem step_settled (hs : s.Regular) (hst : s.stopping = true) (h : step s ev = some s') :
    (ev ≠ .stopReturns → s'.stopping = true) ∧
      ∃ l, s'.settled = s.settled ++ l ∧ l.length + s'.turns ≤ s.turns := by
  have hrun : s.engine.running = false := hs.stopping hst
  cases moves_of_step h with
  | alreadyInitialized hn | initializes hn => rw [hn] at hst; cases hst
  | calls | enqueues | stopsIdle => exact ⟨fun _ => hst, [], (List.append_nil _).symm, (Nat.zero_add _).le⟩
  | tests hd => exact ⟨fun _ => hst, [], by simp [settled, held, hd, hrun], by simp [turns, hrun]⟩
  | dequeues hd hq => exact ⟨fun _ => hst, [_], by simp [settled, held, hd]; rfl, by simp [turns, hd]⟩
  | misses hd => exact ⟨fun _ => hst, [], by simp [settled, held, hd], by simp [turns]⟩
  | delivers hd => exact ⟨fun _ => hst, [], by simp [settled, held, hd, hs.callback], by simp [turns]⟩
  | stops hr => rw [hr] at hrun; cases hrun
  | stopReturns _ hd => exact ⟨fun hne => absurd rfl hne, [], by simp [settled, held, hd], by simp [turns]⟩

/-- Without an `initializeEngine`, a dispatcher that is not there stays away, and the queue keeps what it has. -/
theorem step_absent (hd : s.dispatcher = .none) (h : step s ev = some s')
    (hev : ∀ symbols, ev ≠ .initializeEngine symbols) :
    s'.dispatcher = .none ∧ s'.delivered = s.delivered ∧ s.engine.updateQueue <+: s'.engine.updateQueue := by
  cases moves_of_step h with
  | alreadyInitialized | initializes => exact absurd rfl (hev _)
  | calls uninit ev =>
    have hqueue : (s.engine.start uninit ev).1.updateQueue = s.engine.updateQueue := start_queue uninit s.engine ev
    exact ⟨hd, rfl, hqueue ▸ List.prefix_rfl⟩
  | enqueues => exact ⟨hd, rfl, List.prefix_append _ _⟩
  | stopsIdle | stops => exact ⟨hd, rfl, List.prefix_rfl⟩
  | stopReturns => exact ⟨rfl, rfl, List.prefix_rfl⟩
  | tests hd' | dequeues hd' | misses hd' | delivers hd' => rw [hd] at hd'; cases hd'

/-! ## Runs -/

theorem run_regular {es : List (Event T D)} (h : Run step ready es s) : s.Regular :=
  h.invariant (I := Regular) (fun _ _ _ hs hst => step_regular hs hst) ready_regular

theorem run_conserved {es : List (Event T D)} (h : Run step ready es s) : s.line.Conserved := by
  have hinv := h.invariant (I := fun s => s.Regular ∧ s.line.Conserved) ?_ ⟨ready_regular, fun _ => rfl⟩
  · exact hinv.2
  · rintro s e s' ⟨hs, hc⟩ hst
    refine ⟨step_regular hs hst, ?_⟩
    rcases step_line hs hst with heq | hl
    · rw [heq]; exact hc
    · exact hl.conserved hc

theorem run_settled {es : List (Event T D)} (h : Run step s es s') (hs : s.Regular) (hst : s.stopping = true)
    (hes : .stopReturns ∉ es) :
    s'.Regular ∧ s'.stopping = true ∧ ∃ l, s'.settled = s.settled ++ l ∧ l.length + s'.turns ≤ s.turns := by
  induction h with
  | nil => exact ⟨hs, hst, [], (List.append_nil _).symm, (Nat.zero_add _).le⟩
  | cons hstep _ ih =>
    obtain ⟨hne, hes⟩ := List.ne_and_not_mem_of_not_mem_cons hes
    obtain ⟨hst', l, hl, hlen⟩ := step_settled hs hst hstep
    obtain ⟨hr, hst'', l', hl', hlen'⟩ := ih (step_regular hs hstep) (hst' hne.symm) hes
    refine ⟨hr, hst'', l ++ l', by rw [hl', hl, List.append_assoc], ?_⟩
    rw [List.length_append]
    omega

theorem run_absent {es : List (Event T D)} (h : Run step s es s') (hd : s.dispatcher = .none)
    (hes : ∀ symbols, .initializeEngine symbols ∉ es) :
    s'.delivered = s.delivered ∧ s.engine.updateQueue <+: s'.engine.updateQueue := by
  induction h with
  | nil => exact ⟨rfl, List.prefix_rfl⟩
  | cons hstep _ ih =>
    obtain ⟨hd', hdel, hqueue⟩ := step_absent hd hstep fun symbols he => hes symbols (he ▸ List.mem_cons_self)
    obtain ⟨hdel', hqueue'⟩ := ih hd' fun symbols hm => hes symbols (List.mem_cons_of_mem _ hm)
    exact ⟨hdel'.trans hdel, hqueue.trans hqueue'⟩

/-- What the return of `stop` leaves. -/
theorem stopReturns_absent (h : step s .stopReturns = some s') :
    s'.dispatcher = .none ∧ s'.held = none ∧ s'.delivered = s.delivered ∧ s.held = none := by
  cases moves_of_step h with
  | stopReturns _ hd => exact ⟨rfl, rfl, rfl, by simp [held, hd]⟩

/-- From a `stop` that finds the engine running to its return, the dispatcher delivers what it held, and one update more
only if it had just tested `running`. -/
theorem run_stop {pre post : List (Event T D)} {s₁ s : Session T D} (hpre : Run step ready pre s₁)
    (hrun : s₁.engine.running = true) (hpost : .stopReturns ∉ post)
    (h : Run step ready (pre ++ Event.stop :: post ++ [Event.stopReturns]) s) :
    ∃ l, l.length ≤ s₁.turns ∧ s.delivered = s₁.delivered ++ s₁.held.toList ++ l := by
  obtain ⟨s₃, hto, hret⟩ := h.split_last
  cases hto.after hpre with
  | cons hstop hr =>
    cases moves_of_step hstop with
    | stopsIdle hn => rw [hn] at hrun; cases hrun
    | stops =>
      have hreg := step_regular (run_regular hpre) hstop
      obtain ⟨_, _, l, hl, hlen⟩ := run_settled hr hreg rfl hpost
      obtain ⟨_, _, hdel, hheld⟩ := stopReturns_absent hret
      rw [settled, hheld, Option.toList_none, List.append_nil] at hl
      exact ⟨l, (Nat.le_add_right _ _).trans hlen, hdel.trans hl⟩

open ProducerQueue in
/-- **Delivery.** Each thread's updates are delivered at most once and in its order, and the rest of them is held or
queued. When `stop` returns, nothing is held, an update was dequeued after the call only if `running` had just been
tested, and a thread with no update queued at the call has had all of its updates delivered. Before the next
`initializeEngine` no delivery follows, and what the queue has stays there. -/
theorem run_delivery {es : List (Event T D)} {s : Session T D} (h : Run step ready es s) :
    (∀ i, of i s.delivered ++ of i s.held.toList ++ of i s.engine.updateQueue = of i s.enqueued) ∧
      ∀ pre post s₁, es = pre ++ Event.stop :: post ++ [Event.stopReturns] → .stopReturns ∉ post → Run step ready pre s₁ →
        s₁.engine.running = true →
          s.held = none ∧
            (∃ l, l.length ≤ s₁.turns ∧ s.delivered = s₁.delivered ++ s₁.held.toList ++ l) ∧
            (∀ i, of i s₁.engine.updateQueue = [] → of i s₁.enqueued <+: of i s.delivered) ∧
            ∀ fs s₂, Run step s fs s₂ → (∀ symbols, .initializeEngine symbols ∉ fs) →
              s₂.delivered = s.delivered ∧ s.engine.updateQueue <+: s₂.engine.updateQueue := by
  refine ⟨run_conserved h, ?_⟩
  rintro pre post s₁ rfl hpost hpre hrun
  obtain ⟨s₃, hto, hret⟩ := h.split_last
  obtain ⟨habsent, hheld, -, -⟩ := stopReturns_absent hret
  obtain ⟨l, hlen, hdel⟩ := run_stop hpre hrun hpost h
  refine ⟨hheld, ⟨l, hlen, hdel⟩, fun i hq => ?_, fun fs s₂ hr => run_absent hr habsent⟩
  have hi : of i s₁.delivered ++ of i s₁.held.toList = of i s₁.enqueued := by
    have hc := run_conserved hpre i
    simp only [line, hq, List.append_nil] at hc
    exact hc
  rw [hdel, of_append, of_append, hi]
  exact List.prefix_append _ _

end Steps

section Example

def noUpdate : MarketUpdate ℤ := ⟨"", 0, 0, 0, 0, 0, false⟩

def tick : MarketEvent ℤ := .delta ⟨"BTC-USD", [(100, 1)], [(101, 1)], 7⟩

def tickUpdate : MarketUpdate ℤ := ⟨"BTC-USD", 100, 1, 101, 1, 7, false⟩

/-- The dispatcher holds the update when `stop` is called, and delivers it before `stop` returns. -/
theorem held_update_delivered : ∃ s : Session ℕ ℤ,
    Run step ready ([.initializeEngine ["BTC-USD"], .call 0 noUpdate tick, .enqueue 0, .test, .dequeue 0] ++
      Event.stop :: [.deliver, .test] ++ [Event.stopReturns]) s ∧ [tickUpdate] <+: ProducerQueue.of 0 s.delivered := by
  have hpre : ∃ s : Session ℕ ℤ,
      Run step ready [.initializeEngine ["BTC-USD"], .call 0 noUpdate tick, .enqueue 0, .test, .dequeue 0] s ∧
        s.engine.running = true ∧ s.engine.updateQueue = [] ∧ s.enqueued = [(0, tickUpdate)] :=
    ⟨_, run_iff_exec.2 rfl, rfl, rfl, by decide⟩
  obtain ⟨s₁, hs₁, hrun, hq, henq⟩ := hpre
  have hall : ∃ s : Session ℕ ℤ,
      Run step ready ([.initializeEngine ["BTC-USD"], .call 0 noUpdate tick, .enqueue 0, .test, .dequeue 0] ++
        Event.stop :: [.deliver, .test] ++ [Event.stopReturns]) s := ⟨_, run_iff_exec.2 rfl⟩
  obtain ⟨s, hs⟩ := hall
  have hdel := ((run_delivery hs).2 _ _ s₁ rfl (by simp) hs₁ hrun).2.2.1 0 (by rw [hq]; rfl)
  rw [henq] at hdel
  exact ⟨s, hs, hdel⟩

/-- An update enqueued before `stop` stays in the queue, and the next session delivers it. -/
theorem stop_leaves_update : ∃ s₁ s₂ : Session ℕ ℤ,
    Run step ready [.initializeEngine ["BTC-USD"], .call 0 noUpdate tick, .enqueue 0, .stop, .test, .stopReturns] s₁ ∧
      s₁.enqueued = [(0, tickUpdate)] ∧ s₁.delivered = [] ∧
      Run step s₁ [.initializeEngine ["BTC-USD"], .test, .dequeue 0, .deliver] s₂ ∧
      s₂.delivered = [(0, tickUpdate)] := by
  refine ⟨_, _, run_iff_exec.2 rfl, ?_, rfl, run_iff_exec.2 rfl, ?_⟩ <;> decide

end Example

end Session

end CryptoHft
