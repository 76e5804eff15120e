import CryptoHft.Core.Tightening
import CryptoHft.Lib.Machine

/-!
# The simulated market data of the mock exchange

`startMarketDataSimulation` starts a thread that draws a bid and an ask, hands them on as a delta, and sleeps, until
`running_` is false; `stopMarketDataSimulation`, which `disconnect` calls as well, clears `running_` and joins the thread.
One thread calls the methods, and waits in the join. Registering a callback while the thread runs is a data race, and is
left out.

* No start meets a thread that could still be joined, which would terminate the process; and once a stop or a disconnect
  has returned, the thread makes no step until the next start (`simulation_life`).
* A stop returns after at most two more steps of the thread (`stop_joins`).
* The simulated market only tightens: in an engine that is fed by it alone, the book of its symbol grows and is never
  crossed (`simulated_book`).
-/

namespace CryptoHft

open Machine

variable {D : Type}

namespace MarketData

/-- `feedMarketData` hands on one bid and one ask. -/
def delta (data : MarketData D) : OrderBookDelta D :=
  ⟨data.symbol, [(data.bidPrice, data.bidSize)], [(data.askPrice, data.askSize)], data.timestamp⟩

end MarketData

/-- The numbers that the thread draws, in the ranges of the two distributions. -/
structure Draw (D : Type) [Field D] [LinearOrder D] where
  bidPrice : D
  bidSize : D
  askPrice : D
  askSize : D
  bidPrice_mem : 10000 ≤ bidPrice ∧ bidPrice < 11000
  bidSize_mem : 1 / 10 ≤ bidSize ∧ bidSize < 1
  askPrice_mem : 10000 ≤ askPrice ∧ askPrice < 11000
  askSize_mem : 1 / 10 ≤ askSize ∧ askSize < 1

/-- Where the thread stands: before the test of `running_`, or before it feeds; it can be joined but for `none`. -/
inductive SimulationThread (D : Type)
  | none
  | tests
  | feeds (data : MarketData D)
  | returned

/-- What the caller of the methods waits for, if it waits for the thread. -/
inductive Joining
  | nothing
  | stopReturns
  | disconnectReturns
deriving DecidableEq, Repr

structure MarketDataSimulation (D : Type) where
  connected : Bool
  running : Bool
  /-- Whether the stored callbacks are non-empty. -/
  orderBookCallback : Bool
  orderBookDeltaCallback : Bool
  thread : SimulationThread D
  joining : Joining
  /-- The calls of the callbacks, oldest first. -/
  calls : List (MarketEvent D)

namespace MarketDataSimulation

def constructed : MarketDataSimulation D := ⟨false, false, false, false, .none, .nothing, []⟩

def connect (s : MarketDataSimulation D) : MarketDataSimulation D := { s with connected := true }

def feedOrderBookSnapshot (snapshot : OrderBookSnapshot D) (s : MarketDataSimulation D) : MarketDataSimulation D :=
  if s.connected && s.orderBookCallback then { s with calls := s.calls ++ [.snapshot snapshot] } else s

def feedOrderBookDelta (delta : OrderBookDelta D) (s : MarketDataSimulation D) : MarketDataSimulation D :=
  if s.connected && s.orderBookDeltaCallback then { s with calls := s.calls ++ [.delta delta] } else s

def feedMarketData (data : MarketData D) (s : MarketDataSimulation D) : MarketDataSimulation D :=
  if s.connected && s.orderBookDeltaCallback then { s with calls := s.calls ++ [.delta data.delta] } else s

/-- A thread that can be joined is overwritten at the cost of the process. -/
def startMarketDataSimulation (s : MarketDataSimulation D) : Option (MarketDataSimulation D) :=
  if !s.connected || s.running then some s
  else
    match s.thread with
    | .none => some { s with running := true, thread := .tests }
    | _ => none

/-- Up to the join, if there is a thread to join. -/
def stopMarketDataSimulation (joining : Joining) (s : MarketDataSimulation D) : MarketDataSimulation D :=
  if !s.running then s
  else
    match s.thread with
    | .none => { s with running := false }
    | _ => { s with running := false, joining }

/-- After the join, or without one. -/
def disconnectReturns (s : MarketDataSimulation D) : MarketDataSimulation D := { s with connected := false }

def disconnect (s : MarketDataSimulation D) : MarketDataSimulation D :=
  if !s.connected then s
  else
    let s := s.stopMarketDataSimulation .disconnectReturns
    if s.joining = .nothing then s.disconnectReturns else s

/-- The thread has returned, and the join with it. -/
def join (s : MarketDataSimulation D) : MarketDataSimulation D :=
  let s' := { s with thread := .none, joining := .nothing }
  if s.joining = .disconnectReturns then s'.disconnectReturns else s'

section Steps

variable [Field D] [LinearOrder D]

def drawn (draw : Draw D) (now : Int) : MarketData D :=
  ⟨"BTC/USD", draw.bidPrice, draw.bidSize, draw.askPrice, draw.askSize, now⟩

/-- One step of the thread: the test of `running_`, or the feeding. -/
def simulateMarketData (draw : Draw D) (now : Int) (s : MarketDataSimulation D) : Option (MarketDataSimulation D) :=
  match s.thread with
  | .tests => some { s with thread := if s.running then .feeds (drawn draw now) else .returned }
  | .feeds data => some { s.feedMarketData data with thread := .tests }
  | _ => none

inductive Event (D : Type) [Field D] [LinearOrder D]
  | connect
  | disconnect
  | registerOrderBookCallback
  | registerOrderBookDeltaCallback
  | feedMarketData (data : MarketData D)
  | feedOrderBookSnapshot (snapshot : OrderBookSnapshot D)
  | feedOrderBookDelta (delta : OrderBookDelta D)
  | startMarketDataSimulation
  | stopMarketDataSimulation
  | joins
  | simulates (draw : Draw D) (now : Int)

/-- A call of the caller, which is not waiting. -/
def call (s : MarketDataSimulation D) : Event D → Option (MarketDataSimulation D)
  | .connect => some s.connect
  | .disconnect => some s.disconnect
  | .registerOrderBookCallback =>
    match s.thread with
    | .none => some { s with orderBookCallback := true }
    | _ => none
  | .registerOrderBookDeltaCallback =>
    match s.thread with
    | .none => some { s with orderBookDeltaCallback := true }
    | _ => none
  | .feedMarketData data => some (s.feedMarketData data)
  | .feedOrderBookSnapshot snapshot => some (s.feedOrderBookSnapshot snapshot)
  | .feedOrderBookDelta delta => some (s.feedOrderBookDelta delta)
  | .startMarketDataSimulation => s.startMarketDataSimulation
  | .stopMarketDataSimulation => some (s.stopMarketDataSimulation .stopReturns)
  | .joins | .simulates _ _ => none

def step (s : MarketDataSimulation D) : Event D → Option (MarketDataSimulation D)
  | .simulates draw now => s.simulateMarketData draw now
  | .joins =>
    match s.joining, s.thread with
    | .nothing, _ => none
    | _, .returned => some s.join
    | _, _ => none
  | e => if s.joining = .nothing then s.call e else none

/-! ## The life of the thread -/

/-- There is a thread, and what it is about to feed was drawn. -/
def Alive : SimulationThread D → Prop
  | .none => False
  | .feeds data => ∃ draw now, data = drawn draw now
  | _ => True

/-- No thread; a thread in its loop; or a thread that leaves its loop, while the caller waits for it. -/
inductive Life : Bool → Bool → SimulationThread D → Joining → Prop
  | off {connected : Bool} : Life connected false .none .nothing
  | loops {thread : SimulationThread D} (ha : Alive thread) (hr : thread ≠ .returned) : Life true true thread .nothing
  | leaves {thread : SimulationThread D} {joining : Joining} (ha : Alive thread) (hj : joining ≠ .nothing) :
      Life true false thread joining

def Regular (s : MarketDataSimulation D) : Prop := Life s.connected s.running s.thread s.joining

variable {s s' : MarketDataSimulation D} {e : Event D}

theorem constructed_regular : (constructed : MarketDataSimulation D).Regular := .off

/-- A method that feeds touches nothing but the calls. -/
structure Feeds (s s' : MarketDataSimulation D) : Prop where
  connected : s'.connected = s.connected
  running : s'.running = s.running
  thread : s'.thread = s.thread
  joining : s'.joining = s.joining

omit [Field D] [LinearOrder D] in
theorem feedMarketData_feeds (data : MarketData D) (s : MarketDataSimulation D) : Feeds s (s.feedMarketData data) := by
  unfold feedMarketData
  split <;> exact ⟨rfl, rfl, rfl, rfl⟩

omit [Field D] [LinearOrder D] in
theorem feedOrderBookSnapshot_feeds (snapshot : OrderBookSnapshot D) (s : MarketDataSimulation D) :
    Feeds s (s.feedOrderBookSnapshot snapshot) := by
  unfold feedOrderBookSnapshot
  split <;> exact ⟨rfl, rfl, rfl, rfl⟩

omit [Field D] [LinearOrder D] in
theorem feedOrderBookDelta_feeds (delta : OrderBookDelta D) (s : MarketDataSimulation D) :
    Feeds s (s.feedOrderBookDelta delta) := by
  unfold feedOrderBookDelta
  split <;> exact ⟨rfl, rfl, rfl, rfl⟩

theorem Feeds.regular (h : Feeds s s') (hs : s.Regular) : s'.Regular := by
  rw [Regular, h.connected, h.running, h.thread, h.joining]
  exact hs

theorem disconnect_regular (h : s.Regular) (hj : s.joining = .nothing) : s.disconnect.Regular := by
  obtain ⟨connected, running, snapshots, deltas, thread, joining, calls⟩ := s
  cases hj
  cases h with
  | off => cases connected <;> exact .off
  | loops ha hr =>
    cases thread with
    | none => exact ha.elim
    | returned => exact absurd rfl hr
    | tests | feeds => exact .leaves ha nofun
  | leaves ha hj => exact absurd rfl hj

theorem stop_regular (h : s.Regular) (hj : s.joining = .nothing) : (s.stopMarketDataSimulation .stopReturns).Regular := by
  obtain ⟨connected, running, snapshots, deltas, thread, joining, calls⟩ := s
  cases hj
  cases h with
  | off => exact .off
  | loops ha hr =>
    cases thread with
    | none => exact ha.elim
    | returned => exact absurd rfl hr
    | tests | feeds => exact .leaves ha nofun
  | leaves ha hj => exact absurd rfl hj

/-- A start never meets a thread that could be joined. -/
theorem start_regular (h : s.Regular) (hj : s.joining = .nothing) :
    ∃ s', s.startMarketDataSimulation = some s' ∧ s'.Regular := by
  obtain ⟨connected, running, snapshots, deltas, thread, joining, calls⟩ := s
  cases hj
  cases h with
  | off =>
    cases connected with
    | false => exact ⟨_, rfl, .off⟩
    | true => exact ⟨_, rfl, .loops trivial nofun⟩
  | loops ha hr => exact ⟨_, rfl, .loops ha hr⟩
  | leaves ha hj => exact absurd rfl hj

theorem join_regular (h : s.Regular) (hj : s.joining ≠ .nothing) : s.join.Regular := by
  obtain ⟨connected, running, snapshots, deltas, thread, joining, calls⟩ := s
  cases h with
  | off => exact absurd rfl hj
  | loops ha hr => exact absurd rfl hj
  | leaves ha hj => cases joining <;> exact .off

theorem simulateMarketData_regular (h : s.Regular) {draw : Draw D} {now : Int}
    (hs : s.simulateMarketData draw now = some s') : s'.Regular ∧ s'.joining = s.joining := by
  obtain ⟨connected, running, snapshots, deltas, thread, joining, calls⟩ := s
  cases thread with
  | none | returned => cases hs
  | tests =>
    cases hs
    cases h with
    | loops ha hr => exact ⟨.loops ⟨draw, now, rfl⟩ nofun, rfl⟩
    | leaves ha hj => exact ⟨.leaves trivial hj, rfl⟩
  | feeds data =>
    cases hs
    have hfeeds := feedMarketData_feeds data
      (⟨connected, running, snapshots, deltas, .feeds data, joining, calls⟩ : MarketDataSimulation D)
    rw [Regular, hfeeds.connected, hfeeds.running, hfeeds.joining]
    cases h with
    | loops ha hr => exact ⟨.loops trivial nofun, rfl⟩
    | leaves ha hj => exact ⟨.leaves trivial hj, rfl⟩

theorem joins_eq (h : step s .joins = some s') :
    s.joining ≠ .nothing ∧ s.thread = .returned ∧ s' = s.join := by
  simp only [step] at h
  split at h
  · cases h
  · next ht hj => cases h; exact ⟨hj, ht, rfl⟩
  · cases h

theorem call_eq (h : step s e = some s') (hj : e ≠ .joins) (hs : ∀ draw now, e ≠ .simulates draw now) :
    s.joining = .nothing ∧ s.call e = some s' := by
  cases e with
  | joins => exact absurd rfl hj
  | simulates draw now => exact absurd rfl (hs draw now)
  | _ =>
    simp only [step] at h
    split at h
    · next hn => exact ⟨hn, h⟩
    · cases h

theorem call_regular (h : s.Regular) (hj : s.joining = .nothing) (hs : s.call e = some s') : s'.Regular := by
  cases e with
  | connect =>
    cases hs
    obtain ⟨connected, running, snapshots, deltas, thread, joining, calls⟩ := s
    cases h with
    | off => exact .off
    | loops ha hr => exact .loops ha hr
    | leaves ha hj => exact .leaves ha hj
  | disconnect => cases hs; exact disconnect_regular h hj
  | registerOrderBookCallback | registerOrderBookDeltaCallback =>
    simp only [call] at hs
    split at hs
    · cases hs; exact h
    · cases hs
  | feedMarketData data => cases hs; exact (feedMarketData_feeds data s).regular h
  | feedOrderBookSnapshot snapshot => cases hs; exact (feedOrderBookSnapshot_feeds snapshot s).regular h
  | feedOrderBookDelta delta => cases hs; exact (feedOrderBookDelta_feeds delta s).regular h
  | startMarketDataSimulation =>
    obtain ⟨s₁, hs₁, hr⟩ := start_regular h hj
    cases hs₁.symm.trans hs
    exact hr
  | stopMarketDataSimulation => cases hs; exact stop_regular h hj
  | joins | simulates => cases hs

theorem step_regular (h : s.Regular) (hs : step s e = some s') : s'.Regular := by
  by_cases hj : e = .joins
  · subst hj
    obtain ⟨hjoining, -, rfl⟩ := joins_eq hs
    exact join_regular h hjoining
  by_cases hsim : ∃ draw now, e = .simulates draw now
  · obtain ⟨draw, now, rfl⟩ := hsim
    exact (simulateMarketData_regular h hs).1
  · obtain ⟨hnothing, hcall⟩ := call_eq hs hj fun draw now he => hsim ⟨draw, now, he⟩
    exact call_regular h hnothing hcall

theorem run_regular {es : List (Event D)} (h : Run step constructed es s) : s.Regular :=
  h.invariant (fun _ _ _ hr hs => step_regular hr hs) constructed_regular

/-! ## After a stop -/

/-- No thread, and nobody waits for one. -/
structure Off (s : MarketDataSimulation D) : Prop where
  running : s.running = false
  thread : s.thread = .none
  joining : s.joining = .nothing

omit [Field D] [LinearOrder D] in
theorem Feeds.off (h : Feeds s s') (hs : s.Off) : s'.Off :=
  ⟨h.running.trans hs.running, h.thread.trans hs.thread, h.joining.trans hs.joining⟩

theorem off_of_regular (h : s.Regular) (hr : s.running = false) (hj : s.joining = .nothing) : s.Off := by
  refine ⟨hr, ?_, hj⟩
  obtain ⟨connected, running, snapshots, deltas, thread, joining, calls⟩ := s
  cases hr
  cases hj
  cases h with
  | off => rfl
  | leaves ha hj => exact absurd rfl hj

omit [Field D] [LinearOrder D] in
theorem stop_off (h : s.Off) (joining : Joining) : s.stopMarketDataSimulation joining = s := by
  rw [stopMarketDataSimulation, h.running]
  rfl

omit [Field D] [LinearOrder D] in
theorem disconnect_off (h : s.Off) : s.disconnect.Off := by
  unfold disconnect
  split
  · exact h
  · simp only [stop_off h, h.joining, ↓reduceIte]
    exact ⟨h.running, h.thread, h.joining⟩

theorem call_off (h : s.Off) (he : e ≠ .startMarketDataSimulation) (hs : s.call e = some s') : s'.Off := by
  cases e with
  | connect => cases hs; exact ⟨h.running, h.thread, h.joining⟩
  | disconnect => cases hs; exact disconnect_off h
  | registerOrderBookCallback | registerOrderBookDeltaCallback =>
    rw [call, h.thread] at hs
    cases hs
    exact ⟨h.running, rfl, h.joining⟩
  | feedMarketData data => cases hs; exact (feedMarketData_feeds data s).off h
  | feedOrderBookSnapshot snapshot => cases hs; exact (feedOrderBookSnapshot_feeds snapshot s).off h
  | feedOrderBookDelta delta => cases hs; exact (feedOrderBookDelta_feeds delta s).off h
  | startMarketDataSimulation => exact absurd rfl he
  | stopMarketDataSimulation =>
    cases hs
    rw [stop_off h]
    exact h
  | joins | simulates => cases hs

/-- Without a start the simulation stays off, and its thread does nothing. -/
theorem step_off (h : s.Off) (he : e ≠ .startMarketDataSimulation) (hs : step s e = some s') :
    s'.Off ∧ ∀ draw now, e ≠ .simulates draw now := by
  have hsim : ∀ draw now, e ≠ .simulates draw now := by
    rintro draw now rfl
    simp only [step, simulateMarketData, h.thread] at hs
    cases hs
  have hj : e ≠ .joins := by
    rintro rfl
    exact (joins_eq hs).1 h.joining
  exact ⟨call_off h he (call_eq hs hj hsim).2, hsim⟩

/-- **The life of the thread.** Whatever the caller has called before: when it is not waiting, a start does not meet a
thread that could be joined; the simulation runs only while the adapter is connected; and once it does not run and the
caller has returned, the thread makes no step until the next start. -/
theorem simulation_life {es es' : List (Event D)} (h : Run step constructed es s) (hj : s.joining = .nothing) :
    (∃ s', step s .startMarketDataSimulation = some s') ∧ (s.running = true → s.connected = true) ∧
      (s.running = false → Run step s es' s' → .startMarketDataSimulation ∉ es' →
        s'.running = false ∧ ∀ draw now, .simulates draw now ∉ es') := by
  have hreg := run_regular h
  refine ⟨?_, fun hr => ?_, fun hr h' hes' => ?_⟩
  · obtain ⟨s', hs', -⟩ := start_regular hreg hj
    exact ⟨s', (if_pos hj).trans hs'⟩
  · obtain ⟨connected, running, snapshots, deltas, thread, joining, calls⟩ := s
    cases hr
    cases hreg with
    | loops ha hr => rfl
  · have hoff := off_of_regular hreg hr hj
    clear hreg hr hj h
    induction h' with
    | nil => exact ⟨hoff.running, by simp⟩
    | cons hs _ ih =>
      simp only [List.mem_cons, not_or] at hes'
      obtain ⟨hoff', hsim⟩ := step_off hoff (Ne.symm hes'.1) hs
      obtain ⟨hr, hrest⟩ := ih hes'.2 hoff'
      refine ⟨hr, fun draw now hm => ?_⟩
      rcases List.mem_cons.1 hm with he | hm
      · exact hsim draw now he.symm
      · exact hrest draw now hm

section Example

def quote : Draw ℚ :=
  ⟨10000, 1 / 2, 10001, 1 / 2, by decide +kernel, by decide +kernel, by decide +kernel, by decide +kernel⟩

/-- A simulation that was stopped can be started again. -/
theorem simulation_restarts : ∃ s s' : MarketDataSimulation ℚ,
    Run step constructed [.connect, .startMarketDataSimulation, .stopMarketDataSimulation, .simulates quote 0, .joins] s ∧
      step s .startMarketDataSimulation = some s' := by
  have hrun : ∃ s : MarketDataSimulation ℚ, Run step constructed
      [.connect, .startMarketDataSimulation, .stopMarketDataSimulation, .simulates quote 0, .joins] s ∧
        s.joining = .nothing := ⟨_, run_iff_exec.2 rfl, rfl⟩
  obtain ⟨s, h, hj⟩ := hrun
  obtain ⟨⟨s', hs'⟩, -⟩ := @simulation_life ℚ _ _ s s _ [] h hj
  exact ⟨s, s', h, hs'⟩

end Example

/-! ## The return of a stop -/

def Event.bySimulation : Event D → Bool
  | .simulates _ _ => true
  | _ => false

/-- The most steps that the thread makes if `running_` is false. -/
def toReturn (s : MarketDataSimulation D) : ℕ :=
  match s.thread with
  | .none | .returned => 0
  | .tests => 1
  | .feeds _ => 2

/-- The caller waits for the thread. -/
structure Joins (s : MarketDataSimulation D) : Prop where
  regular : s.Regular
  joining : s.joining ≠ .nothing

theorem Joins.running (h : s.Joins) : s.running = false := by
  obtain ⟨connected, running, snapshots, deltas, thread, joining, calls⟩ := s
  cases h.regular with
  | off => rfl
  | loops => exact absurd rfl h.joining
  | leaves => rfl

theorem Joins.alive (h : s.Joins) : Alive s.thread := by
  obtain ⟨connected, running, snapshots, deltas, thread, joining, calls⟩ := s
  cases h.regular with
  | off => exact absurd rfl h.joining
  | loops => exact absurd rfl h.joining
  | leaves ha => exact ha

/-- While the caller waits only the thread makes steps, and each brings it closer to its return. -/
theorem step_toReturn (h : s.Joins) (he : e ≠ .joins) (hs : step s e = some s') :
    s'.Joins ∧ e.bySimulation.toNat + s'.toReturn ≤ s.toReturn := by
  by_cases hsim : ∃ draw now, e = .simulates draw now
  · obtain ⟨draw, now, rfl⟩ := hsim
    obtain ⟨hreg, hjoining⟩ := simulateMarketData_regular h.regular hs
    refine ⟨⟨hreg, hjoining ▸ h.joining⟩, ?_⟩
    have hr := h.running
    simp only [step, simulateMarketData] at hs
    cases ht : s.thread with
    | none | returned => rw [ht] at hs; cases hs
    | tests =>
      rw [ht] at hs
      cases hs
      simp [toReturn, ht, hr, Event.bySimulation]
    | feeds data =>
      rw [ht] at hs
      cases hs
      simp [toReturn, ht, Event.bySimulation]
  · exact absurd (call_eq hs he fun draw now hd => hsim ⟨draw, now, hd⟩).1 h.joining

theorem exists_step (h : s.Joins) :
    if s.toReturn = 0 then ∃ s', step s .joins = some s' else ∀ draw now, ∃ s', step s (.simulates draw now) = some s' := by
  have halive := h.alive
  cases ht : s.thread with
  | none => rw [ht] at halive; exact halive.elim
  | returned =>
    rw [if_pos (by rw [toReturn, ht])]
    simp only [step]
    split
    · next hn => exact absurd hn h.joining
    · exact ⟨_, rfl⟩
    · next hne => exact absurd ht hne
  | tests =>
    rw [if_neg (by simp [toReturn, ht])]
    exact fun draw now => ⟨_, by rw [step, simulateMarketData, ht]⟩
  | feeds data =>
    rw [if_neg (by simp [toReturn, ht])]
    exact fun draw now => ⟨_, by rw [step, simulateMarketData, ht]⟩

omit [Field D] [LinearOrder D] in
theorem toReturn_le (s : MarketDataSimulation D) : s.toReturn ≤ 2 := by
  unfold toReturn
  split <;> omega

/-- **A stop returns**: while the caller waits in the join, the thread makes at most two steps, it is never stuck, and
when it has made its last one the join returns. -/
theorem stop_joins {es es' : List (Event D)} (h : Run step constructed es s) (hj : s.joining ≠ .nothing)
    (h' : Run step s es' s') (hes' : .joins ∉ es') :
    es'.countP Event.bySimulation + s'.toReturn ≤ 2 ∧
      if s'.toReturn = 0 then ∃ s'', step s' .joins = some s''
      else ∀ draw now, ∃ s'', step s' (.simulates draw now) = some s'' := by
  have hok : Along step (fun _ e => e ≠ .joins) s es' := by
    rintro pre e post _ rfl - rfl
    exact hes' (by simp)
  obtain ⟨hjoins, hcount⟩ := h'.countP_add_le (I := Joins) (fun _ _ _ hi he hs => step_toReturn hi he hs) hok
    ⟨run_regular h, hj⟩
  exact ⟨hcount.trans s.toReturn_le, exists_step hjoins⟩

section Example

/-- The thread has drawn its data when the caller stops it: one feeding and one test later the join returns. -/
theorem stop_joins_feeding : ∃ s s' : MarketDataSimulation ℚ,
    Run step constructed [.connect, .startMarketDataSimulation, .simulates quote 0, .stopMarketDataSimulation] s ∧
      Run step s [.simulates quote 1, .simulates quote 2] s' ∧ ∃ s'', step s' .joins = some s'' := by
  have hrun : ∃ s s' : MarketDataSimulation ℚ,
      Run step constructed [.connect, .startMarketDataSimulation, .simulates quote 0, .stopMarketDataSimulation] s ∧
        s.joining ≠ .nothing ∧ Run step s [.simulates quote 1, .simulates quote 2] s' ∧ s'.toReturn = 0 :=
    ⟨_, _, run_iff_exec.2 rfl, nofun, run_iff_exec.2 rfl, rfl⟩
  obtain ⟨s, s', h, hj, h', hzero⟩ := hrun
  have hreturns := (stop_joins h hj h' (by simp)).2
  rw [if_pos hzero] at hreturns
  exact ⟨s, s', h, h', hreturns⟩

end Example

/-! ## The simulated book -/

/-- The caller feeds data of its own. -/
def Event.Feeds : Event D → Prop
  | .feedMarketData _ | .feedOrderBookSnapshot _ | .feedOrderBookDelta _ => True
  | _ => False

/-- The callback is called for data that the thread drew. -/
def Simulated (ev : MarketEvent D) : Prop := ∃ draw now, ev = .delta (drawn draw now).delta

omit [Field D] [LinearOrder D] in
theorem feedMarketData_calls (data : MarketData D) (s : MarketDataSimulation D) :
    (s.feedMarketData data).calls = s.calls ∨ (s.feedMarketData data).calls = s.calls ++ [.delta data.delta] := by
  unfold feedMarketData
  split
  · exact .inr rfl
  · exact .inl rfl

omit [Field D] [LinearOrder D] in
theorem stop_calls (joining : Joining) (s : MarketDataSimulation D) :
    (s.stopMarketDataSimulation joining).calls = s.calls := by
  unfold stopMarketDataSimulation
  split
  · rfl
  · split <;> rfl

omit [Field D] [LinearOrder D] in
theorem disconnect_calls (s : MarketDataSimulation D) : s.disconnect.calls = s.calls := by
  unfold disconnect
  split
  · rfl
  · simp only
    split
    · exact stop_calls _ s
    · exact stop_calls _ s

omit [Field D] [LinearOrder D] in
theorem join_calls (s : MarketDataSimulation D) : s.join.calls = s.calls := by
  unfold join
  simp only
  split <;> rfl

theorem call_calls (he : ¬ e.Feeds) (hs : s.call e = some s') : s'.calls = s.calls := by
  cases e with
  | connect => cases hs; rfl
  | disconnect => cases hs; exact disconnect_calls s
  | registerOrderBookCallback | registerOrderBookDeltaCallback =>
    simp only [call] at hs
    split at hs
    · cases hs; rfl
    · cases hs
  | feedMarketData | feedOrderBookSnapshot | feedOrderBookDelta => exact absurd trivial he
  | startMarketDataSimulation =>
    simp only [call, startMarketDataSimulation] at hs
    split at hs
    · cases hs; rfl
    · split at hs
      · cases hs; rfl
      · cases hs
  | stopMarketDataSimulation => cases hs; exact stop_calls _ s
  | joins | simulates => cases hs

theorem simulateMarketData_calls (hr : s.Regular) {draw : Draw D} {now : Int}
    (hs : s.simulateMarketData draw now = some s') : ∃ new, s'.calls = s.calls ++ new ∧ ∀ ev ∈ new, Simulated ev := by
  obtain ⟨connected, running, snapshots, deltas, thread, joining, calls⟩ := s
  cases thread with
  | none | returned => cases hs
  | tests => cases hs; exact ⟨[], by simp⟩
  | feeds data =>
    have halive : ∃ draw now, data = drawn draw now := by
      cases hr with
      | loops ha => exact ha
      | leaves ha => exact ha
    cases hs
    rcases feedMarketData_calls data ⟨connected, running, snapshots, deltas, .feeds data, joining, calls⟩ with h | h
    · exact ⟨[], by simpa using h, by simp⟩
    · refine ⟨_, h, fun ev hev => ?_⟩
      obtain ⟨draw, now, rfl⟩ := halive
      exact ⟨draw, now, List.mem_singleton.1 hev⟩

theorem step_calls (hr : s.Regular) (he : ¬ e.Feeds) (hs : step s e = some s') :
    ∃ new, s'.calls = s.calls ++ new ∧ ∀ ev ∈ new, Simulated ev := by
  by_cases hj : e = .joins
  · subst hj
    obtain ⟨-, -, rfl⟩ := joins_eq hs
    exact ⟨[], by rw [join_calls, List.append_nil], by simp⟩
  by_cases hsim : ∃ draw now, e = .simulates draw now
  · obtain ⟨draw, now, rfl⟩ := hsim
    exact simulateMarketData_calls hr hs
  · have hcall := (call_eq hs hj fun draw now hd => hsim ⟨draw, now, hd⟩).2
    exact ⟨[], by rw [call_calls he hcall, List.append_nil], by simp⟩

theorem run_simulated {es : List (Event D)} (h : Run step s es s') (hr : s.Regular) (hes : ∀ e ∈ es, ¬ e.Feeds) :
    ∃ new, s'.calls = s.calls ++ new ∧ ∀ ev ∈ new, Simulated ev := by
  induction h with
  | nil => exact ⟨[], by simp, by simp⟩
  | cons hs _ ih =>
    obtain ⟨he, hes⟩ := List.forall_mem_cons.1 hes
    obtain ⟨new, hnew, hall⟩ := step_calls hr he hs
    obtain ⟨new', hnew', hall'⟩ := ih (step_regular hr hs) hes
    refine ⟨new ++ new', by rw [hnew', hnew, List.append_assoc], fun ev hev => ?_⟩
    exact (List.mem_append.1 hev).elim (hall ev) (hall' ev)

theorem Simulated.stores [IsStrictOrderedRing D] {ev : MarketEvent D} (h : Simulated ev) : ev.Stores := by
  obtain ⟨draw, now, rfl⟩ := h
  have htenth : (0 : D) < 1 / 10 := by positivity
  refine ⟨fun u hu => ?_, fun u hu => ?_⟩
  · rw [List.mem_singleton.1 hu]
    exact (htenth.trans_le draw.bidSize_mem.1).ne'
  · rw [List.mem_singleton.1 hu]
    exact (htenth.trans_le draw.askSize_mem.1).ne'

open OrderBook in
/-- **The simulated market only tightens**: where the deltas go to an engine, and the caller feeds nothing itself, the
book of the simulated symbol grows from any state of a run to any later one, is never crossed, and once it has two sides
its spread stays positive and does not widen. -/
theorem simulated_book [IsStrictOrderedRing D] {T : Type} (engine : MarketDataEngine T D) (thread : T)
    (uninit : MarketUpdate D) {b : OrderBook D} (hb : engine.getOrderBook "BTC/USD" = some b) (hunc : b.Uncrossed)
    {es es' : List (Event D)} (h : Run step constructed es s) (h' : Run step s es' s')
    (hes : ∀ e ∈ es ++ es', ¬ e.Feeds) :
    ∃ b₁ b₂, (engine.handleAll (s.calls.map (.mk thread uninit))).getOrderBook "BTC/USD" = some b₁ ∧
      (engine.handleAll (s'.calls.map (.mk thread uninit))).getOrderBook "BTC/USD" = some b₂ ∧
      Grows b b₁ ∧ Grows b₁ b₂ ∧ b₂.Uncrossed ∧
      (b₁.bids ≠ ∅ → b₁.asks ≠ ∅ → 0 < b₂.getSpread ∧ b₂.getSpread ≤ b₁.getSpread) := by
  obtain ⟨calls, hcalls, hsim⟩ := run_simulated h constructed_regular fun e he => hes e (List.mem_append_left _ he)
  obtain ⟨calls', hcalls', hsim'⟩ := run_simulated h' (run_regular h) fun e he => hes e (List.mem_append_right _ he)
  have hstores : ∀ evs : List (MarketEvent D), (∀ ev ∈ evs, Simulated ev) →
      ∀ c ∈ evs.map (Call.mk thread uninit), c.event.symbol = "BTC/USD" → c.event.Stores := by
    intro evs hevs c hc _
    obtain ⟨ev, hev, rfl⟩ := List.mem_map.1 hc
    exact (hevs ev hev).stores
  obtain ⟨b₁, hb₁, hg₁⟩ := MarketDataEngine.handleAll_grows engine hb (hstores calls hsim)
  obtain ⟨b₂, hb₂, hg₂⟩ := MarketDataEngine.handleAll_grows _ hb₁ (hstores calls' hsim')
  have hunc₂ := hg₂.uncrossed (hg₁.uncrossed hunc)
  rw [hcalls', hcalls, constructed, List.nil_append]
  refine ⟨b₁, b₂, hb₁, ?_, hg₁, hg₂, hunc₂, fun hbids hasks => ⟨?_, hg₂.spread_le hbids hasks⟩⟩
  · rw [List.map_append, MarketDataEngine.handleAll, List.foldl_append]
    exact hb₂
  · have hbid := (getBestBid_spec (hg₂.bids_ne_empty hbids)).1
    have hask := (getBestAsk_spec (hg₂.asks_ne_empty hasks)).1
    exact sub_pos.2 (hunc₂ _ hbid _ hask)

section Example

open OrderBook in
/-- An engine that is fed one quote, and the same quote again. -/
theorem simulated_book_quoted : ∃ s s' : MarketDataSimulation ℚ,
    Run step constructed [.registerOrderBookDeltaCallback, .connect, .startMarketDataSimulation, .simulates quote 0,
      .simulates quote 0] s ∧ Run step s [.simulates quote 1, .simulates quote 1] s' ∧
      ∃ b₁ b₂, (MarketDataEngine.oneSymbol.handleAll (s.calls.map (.mk 0 ⟨"", 0, 0, 0, 0, 0, false⟩))).getOrderBook
        "BTC/USD" = some b₁ ∧ (MarketDataEngine.oneSymbol.handleAll
          (s'.calls.map (.mk 0 ⟨"", 0, 0, 0, 0, 0, false⟩))).getOrderBook "BTC/USD" = some b₂ ∧ Grows b₁ b₂ := by
  have hrun : ∃ s s' : MarketDataSimulation ℚ,
      Run step constructed [.registerOrderBookDeltaCallback, .connect, .startMarketDataSimulation, .simulates quote 0,
        .simulates quote 0] s ∧ Run step s [.simulates quote 1, .simulates quote 1] s' :=
    ⟨_, _, run_iff_exec.2 rfl, run_iff_exec.2 rfl⟩
  obtain ⟨s, s', h, h'⟩ := hrun
  have hes : ∀ e ∈ ([.registerOrderBookDeltaCallback, .connect, .startMarketDataSimulation, .simulates quote 0,
      .simulates quote 0] ++ [.simulates quote 1, .simulates quote 1] : List (Event ℚ)), ¬ e.Feeds := by
    simp [Event.Feeds]
  obtain ⟨b₁, b₂, hb₁, hb₂, -, hg, -⟩ := simulated_book MarketDataEngine.oneSymbol 0 ⟨"", 0, 0, 0, 0, 0, false⟩
    (b := .empty) rfl (by intro p hp; simp [OrderBook.empty] at hp) h h' hes
  exact ⟨s, s', h, h', b₁, b₂, hb₁, hb₂, hg⟩

end Example

end Steps

end MarketDataSimulation

end CryptoHft
