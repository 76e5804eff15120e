import CryptoHft.Core.Calls
import CryptoHft.Core.Parallel

/-!
# The concurrent engine and its calls one after the other

What the threads leave behind is what the engine would have come to with one call at a time, in the order in which the
calls looked their books up (`serial`).

* A session has the books of the serial engine, and each thread has enqueued, or is about to enqueue, the updates that
  the serial engine has queued for it (`Agrees`, `run_agrees`).
* At the granularity of the locks this holds whenever no call is under way (`Parallel.run_serial`).
* A book of the serial engine is the fold of its symbol's calls since the last initialisation that listed the symbol
  (`foldl_serial_orderBooks`, `Parallel.run_getOrderBook`).
-/

namespace CryptoHft

open Machine

variable {T D : Type} [LinearOrder D]

namespace Session

variable [Zero D]

/-- The engine with its events one after the other, each call in one piece. Nothing is taken from its queue. -/
def serial (e : MarketDataEngine T D) : Event T D → MarketDataEngine T D
  | .initializeEngine symbols => e.initializeEngine symbols
  | .call thread uninit ev => e.callback uninit thread ev
  | .stop => { e with running := false }
  | _ => e

variable [DecidableEq T]

/-- The books are those of the serial engine; what a thread has enqueued, with the update it still holds, is what the
serial engine has queued for it. -/
structure Agrees (s : Session T D) (e : MarketDataEngine T D) : Prop where
  books : s.engine.orderBooks = e.orderBooks
  running : s.engine.running = e.running
  queued : ∀ i, ProducerQueue.of i s.enqueued ++ (s.inFlight i).toList = ProducerQueue.of i e.updateQueue

omit [Zero D] in
theorem ready_agrees : (ready : Session T D).Agrees MarketDataEngine.constructed := ⟨rfl, rfl, fun _ => rfl⟩

/-- A call: its update is in the thread's hands, and at the end of the serial queue. -/
theorem Agrees.call {s : Session T D} {e : MarketDataEngine T D} (h : s.Agrees e) {thread : T}
    (hf : s.inFlight thread = none) (uninit : MarketUpdate D) (ev : MarketEvent D) :
    Agrees { s with
      engine := (s.engine.start uninit ev).1
      inFlight := Function.update s.inFlight thread (s.engine.start uninit ev).2 }
      (e.callback uninit thread ev) := by
  have hlookup : s.engine.getOrderBook ev.symbol = e.orderBooks ev.symbol := congrFun h.books _
  cases hb : e.orderBooks ev.symbol with
  | none =>
    rw [MarketDataEngine.callback_unknown hb]
    simp only [MarketDataEngine.start, hlookup, hb]
    rw [← hf, Function.update_eq_self]
    exact h
  | some b =>
    rw [MarketDataEngine.callback_known hb]
    simp only [MarketDataEngine.start, hlookup, hb]
    refine ⟨congrArg (Function.update · ev.symbol _) h.books, h.running, fun i => ?_⟩
    rw [ProducerQueue.of_append, ← h.queued i]
    by_cases hi : i = thread
    · subst hi
      simp [hf, ProducerQueue.of_cons_self]
    · simp [hi, ProducerQueue.of_cons_ne (Ne.symm hi)]

theorem step_agrees {s s' : Session T D} {ev : Event T D} {e : MarketDataEngine T D} (h : s.Agrees e)
    (hs : step s ev = some s') : s'.Agrees (serial e ev) := by
  cases moves_of_step hs with
  | alreadyInitialized _ hr =>
    have he : e.running = true := h.running.symm.trans hr
    simp only [serial, MarketDataEngine.initializeEngine, he, ↓reduceIte]
    exact h
  | initializes _ hr =>
    have he : e.running = false := h.running.symm.trans hr
    simp only [serial, MarketDataEngine.initializeEngine, he, hr, Bool.false_eq_true, ↓reduceIte]
    exact ⟨by rw [h.books], rfl, h.queued⟩
  | calls uninit ev hf => exact h.call hf uninit ev
  | @enqueues thread update hf =>
    refine ⟨h.books, h.running, fun i => ?_⟩
    have hi := h.queued i
    by_cases hit : i = thread
    · subst hit
      rw [hf] at hi
      simpa [serial, ProducerQueue.of_cons_self] using hi
    · simpa [serial, hit, ProducerQueue.of_cons_ne (Ne.symm hit)] using hi
  | stopsIdle hr => exact ⟨h.books, hr, h.queued⟩
  | stops => exact ⟨h.books, rfl, h.queued⟩
  | tests | dequeues | misses | delivers | stopReturns => exact ⟨h.books, h.running, h.queued⟩

theorem run_agrees {s : Session T D} {es : List (Event T D)} (h : Run step ready es s) :
    s.Agrees (es.foldl serial MarketDataEngine.constructed) := by
  have hrun : ∀ {s s' : Session T D} {es : List (Event T D)} {e : MarketDataEngine T D},
      Run step s es s' → s.Agrees e → s'.Agrees (es.foldl serial e) := by
    intro s s' es e h
    induction h generalizing e with
    | nil => exact id
    | cons hs _ ih => exact fun ha => ih (step_agrees ha hs)
  exact hrun h ready_agrees

/-! ## The book of a symbol -/

/-- The events with which the handlers are called for the symbol, in order. -/
def callsOf (x : String) (es : List (Event T D)) : List (MarketEvent D) :=
  es.filterMap fun
    | .call _ _ ev => if ev.symbol = x then some ev else none
    | _ => none

omit [LinearOrder D] [Zero D] [DecidableEq T] in
theorem callsOf_call (x : String) (thread : T) (uninit : MarketUpdate D) (ev : MarketEvent D) (es : List (Event T D)) :
    callsOf x (.call thread uninit ev :: es) = if ev.symbol = x then ev :: callsOf x es else callsOf x es := by
  by_cases hx : ev.symbol = x <;> simp [callsOf, hx]

omit [DecidableEq T] in
/-- While no initialisation makes a fresh book for it, a symbol's book goes from call to call of the symbol. -/
theorem foldl_serial_orderBooks (x : String) (es : List (Event T D)) (e : MarketDataEngine T D)
    (hes : ∀ mid symbols rest, es = mid ++ .initializeEngine symbols :: rest → x ∈ symbols →
      (mid.foldl serial e).running = true) :
    (es.foldl serial e).orderBooks x =
      (e.orderBooks x).map fun b => (callsOf x es).foldl (fun b ev => ev.book b) b := by
  induction es generalizing e with
  | nil => simp [callsOf]
  | cons ev es ih =>
    have htail : ∀ mid symbols rest, es = mid ++ .initializeEngine symbols :: rest → x ∈ symbols →
        (mid.foldl serial (serial e ev)).running = true := by
      intro mid symbols rest heq hx
      exact hes (ev :: mid) symbols rest (by rw [heq]; rfl) hx
    rw [List.foldl_cons, ih _ htail]
    cases ev with
    | initializeEngine symbols =>
      have hkeep : (e.initializeEngine symbols).orderBooks x = e.orderBooks x := by
        cases hr : e.running with
        | true => simp only [MarketDataEngine.initializeEngine, hr, ↓reduceIte]
        | false =>
          rw [MarketDataEngine.initializeEngine_orderBooks hr, if_neg]
          intro hx
          have hrun : e.running = true := hes [] symbols es rfl hx
          rw [hr] at hrun
          cases hrun
      simp only [serial, hkeep]
      rfl
    | call thread uninit ev =>
      rw [serial, MarketDataEngine.callback_orderBooks, callsOf_call]
      by_cases hx : ev.symbol = x
      · rw [if_pos hx.symm, if_pos hx, Option.map_map]
        rfl
      · rw [if_neg (Ne.symm hx), if_neg hx]
    | _ => rfl

end Session

/-! ## At the granularity of the locks -/

namespace Parallel

variable {T D : Type} [Field D] [LinearOrder D] [DecidableEq T] {owner : String → T} {s : Parallel T D}

theorem settle_agrees {es : List (Event T D)} (h : Run step ready es s) (hes : ∀ e ∈ es, e.OwnedBy owner) :
    (s.settle owner).Agrees ((es.filterMap Event.session?).foldl Session.serial MarketDataEngine.constructed) :=
  Session.run_agrees (owned_run h hes).2

/-- **Serial calls**: whenever no call is under way, the books are those of the serial engine, and what a thread's
updates have become, delivered, held or queued, are the updates that the serial engine has queued for it, in order. -/
theorem run_serial {es : List (Event T D)} (h : Run step ready es s) (hes : ∀ e ∈ es, e.OwnedBy owner)
    (hquiet : ∀ i, s.task i = none) :
    let e := (es.filterMap Event.session?).foldl Session.serial MarketDataEngine.constructed
    (∀ x, s.getOrderBook x = e.getOrderBook x) ∧ s.running = e.running ∧
      ∀ i, ProducerQueue.of i s.delivered ++ ProducerQueue.of i (s.settle owner).held.toList ++
        ProducerQueue.of i s.updateQueue = ProducerQueue.of i e.updateQueue := by
  intro e
  obtain ⟨hbooks, hidle⟩ := settle_quiet owner hquiet
  have hagrees : (s.settle owner).Agrees e := settle_agrees h hes
  refine ⟨fun x => ?_, hagrees.running, fun i => ?_⟩
  · rw [← hbooks x]
    exact congrFun hagrees.books x
  · have hconserved := Session.run_conserved (owned_run h hes).2 i
    have hqueued := hagrees.queued i
    rw [hidle i, Option.toList_none, List.append_nil] at hqueued
    exact hconserved.trans hqueued

/-- The two threads that take turns leave the bid of the one, and pass on the update of the other. -/
theorem turnsTaken_serial : ∃ s : Parallel ℕ ℚ, Run step ready turnsTaken s ∧
    (s.getOrderBook "BTC-USD").map (·.getBestBid) = some 100 ∧
      ProducerQueue.of 1 s.delivered ++ ProducerQueue.of 1 (s.settle coinbaseOwner).held.toList ++
        ProducerQueue.of 1 s.updateQueue = [⟨"XBT/USD", 0, 0, 102, 2, 8, false⟩] := by
  obtain ⟨s, hs, hquiet⟩ := turnsTaken_run
  obtain ⟨hbooks, -, hqueue⟩ := run_serial hs turnsTaken_owned hquiet
  refine ⟨s, hs, ?_, (hqueue 1).trans (by decide +kernel)⟩
  rw [hbooks]
  decide +kernel

omit [Field D] [LinearOrder D] [DecidableEq T] in
theorem filterMap_session (pre post : List (Event T D)) (ev : Session.Event T D) :
    (pre ++ .session ev :: post).filterMap Event.session? =
      pre.filterMap Event.session? ++ ev :: post.filterMap Event.session? := by
  rw [List.filterMap_append]
  rfl

omit [Field D] [LinearOrder D] [DecidableEq T] in
/-- The events of the session in a part of a list are those of a part of the list. -/
theorem exists_split {es : List (Event T D)} {mid rest : List (Session.Event T D)} {ev : Session.Event T D}
    (h : es.filterMap Event.session? = mid ++ ev :: rest) :
    ∃ mid' rest', es = mid' ++ .session ev :: rest' ∧ mid'.filterMap Event.session? = mid := by
  obtain ⟨es₁, es₂, rfl, hmid, h₂⟩ := List.filterMap_eq_append_iff.1 h
  obtain ⟨works, e, rest', rfl, hworks, he, -⟩ := List.filterMap_eq_cons_iff.1 h₂
  have hev : e = .session ev := by
    cases e with
    | work i => cases he
    | session ev' => cases he; rfl
  subst hev
  refine ⟨es₁ ++ works, rest', (List.append_assoc ..).symm, ?_⟩
  rw [List.filterMap_append, hmid, List.filterMap_eq_nil_iff.2 hworks, List.append_nil]

/-- On the way of a run the engine runs exactly when the serial engine does. -/
theorem exists_running {pre : List (Event T D)} {e : Event T D} {post : List (Event T D)}
    (h : Run step ready (pre ++ e :: post) s) (hes : ∀ e' ∈ pre ++ e :: post, e'.OwnedBy owner) :
    ∃ s₁, Run step ready pre s₁ ∧
      s₁.running = ((pre.filterMap Event.session?).foldl Session.serial MarketDataEngine.constructed).running := by
  obtain ⟨s₁, hpre, -⟩ := h.split
  exact ⟨s₁, hpre, (settle_agrees hpre fun e' he => hes e' (List.mem_append_left _ he)).running⟩

/-- Since an initialisation that found the engine stopped and listed the symbol, and found no later one that did, the
book of the symbol has gone from call to call of the symbol. -/
theorem orderBook_since {pre post : List (Event T D)} {symbols : List String} {x : String} {s₁ : Parallel T D}
    (h : Run step ready (pre ++ .session (.initializeEngine symbols) :: post) s)
    (hes : ∀ e ∈ pre ++ .session (.initializeEngine symbols) :: post, e.OwnedBy owner) (hquiet : ∀ i, s.task i = none)
    (hpre : Run step ready pre s₁) (hstopped : s₁.running = false) (hx : x ∈ symbols)
    (hlater : ∀ mid symbols' rest s₂, post = mid ++ .session (.initializeEngine symbols') :: rest →
      Run step ready (pre ++ .session (.initializeEngine symbols) :: mid) s₂ → x ∈ symbols' → s₂.running = true) :
    s.getOrderBook x =
      some ((Session.callsOf x (post.filterMap Event.session?)).foldl (fun b ev => ev.book b) .empty) := by
  have hbook := congrFun (settle_agrees h hes).books x
  have hrun₁ := (settle_agrees hpre fun e he => hes e (List.mem_append_left _ he)).running
  have hfresh : (Session.serial ((pre.filterMap Event.session?).foldl Session.serial MarketDataEngine.constructed)
      (.initializeEngine symbols)).orderBooks x = some .empty := by
    rw [Session.serial, MarketDataEngine.initializeEngine_orderBooks (hrun₁.symm.trans hstopped), if_pos hx]
  rw [← (settle_quiet owner hquiet).1 x]
  refine hbook.trans ?_
  rw [filterMap_session, List.foldl_append, List.foldl_cons, Session.foldl_serial_orderBooks, hfresh, Option.map_some]
  intro mid symbols' rest heq hx'
  obtain ⟨mid', rest', rfl, rfl⟩ := exists_split heq
  rw [← List.cons_append, ← List.append_assoc] at h hes
  obtain ⟨s₂, hs₂, hrun₂⟩ := exists_running h hes
  have hrun := hlater mid' symbols' rest' s₂ rfl hs₂ hx'
  rw [hrun₂, filterMap_session, List.foldl_append, List.foldl_cons] at hrun
  exact hrun

/-- **The book of a symbol**: an initialisation that finds the engine stopped and lists the symbol gives it an empty
book; from then on, and until the next such initialisation, the book goes from call to call of the symbol. A symbol that
no such initialisation has listed has no book. -/
theorem run_getOrderBook {es : List (Event T D)} (h : Run step ready es s) (hes : ∀ e ∈ es, e.OwnedBy owner)
    (hquiet : ∀ i, s.task i = none) (x : String) :
    (∀ pre symbols post s₁, es = pre ++ .session (.initializeEngine symbols) :: post → Run step ready pre s₁ →
      s₁.running = false → x ∈ symbols →
      (∀ mid symbols' rest s₂, post = mid ++ .session (.initializeEngine symbols') :: rest →
        Run step ready (pre ++ .session (.initializeEngine symbols) :: mid) s₂ → x ∈ symbols' → s₂.running = true) →
      s.getOrderBook x =
        some ((Session.callsOf x (post.filterMap Event.session?)).foldl (fun b ev => ev.book b) .empty)) ∧
    ((∀ pre symbols post s₁, es = pre ++ .session (.initializeEngine symbols) :: post → Run step ready pre s₁ →
      x ∈ symbols → s₁.running = true) → s.getOrderBook x = none) := by
  constructor
  · rintro pre symbols post s₁ rfl hpre hstopped hx hlater
    exact orderBook_since h hes hquiet hpre hstopped hx hlater
  · intro hnever
    rw [← (settle_quiet owner hquiet).1 x]
    refine (congrFun (settle_agrees h hes).books x).trans ?_
    rw [Session.foldl_serial_orderBooks]
    · rfl
    · intro mid symbols rest heq hx
      obtain ⟨mid', rest', rfl, rfl⟩ := exists_split heq
      obtain ⟨s₂, hs₂, hrun₂⟩ := exists_running h hes
      rw [← hrun₂]
      exact hnever mid' symbols rest' s₂ rfl hs₂ hx

/-- The book of the first thread's symbol, after its one call. -/
theorem turnsTaken_getOrderBook : ∃ s : Parallel ℕ ℚ, Run step ready turnsTaken s ∧
    s.getOrderBook "BTC-USD" = some (coinbaseTick.book .empty) := by
  obtain ⟨s, hs, hquiet⟩ := turnsTaken_run
  refine ⟨s, hs, ?_⟩
  refine (run_getOrderBook hs turnsTaken_owned hquiet "BTC-USD").1 [] _ turnsTaken.tail ready rfl (.nil _) rfl
    (by simp) ?_
  intro mid symbols rest s₂ heq
  have hmem : Event.session (.initializeEngine symbols) ∈ turnsTaken.tail := heq ▸ by simp
  simp [turnsTaken] at hmem

/-- Two threads of one symbol: a snapshot between the two writes of a delta leaves a book that neither order of the two
calls leaves. -/
theorem shared_symbol_torn :
    let delta : MarketEvent ℚ := .delta ⟨"BTC-USD", [(100, 1)], [(102, 2)], 7⟩
    let snapshot : MarketEvent ℚ := .snapshot ⟨"BTC-USD", [(90, 3)], [(110, 4)], 8⟩
    let b : OrderBook ℚ := .empty
    ∃ s : Parallel ℕ ℚ, Run step ready
      [.session (.initializeEngine ["BTC-USD"]), .session (.call 0 noUpdate delta), .work 0,
        .session (.call 1 noUpdate snapshot), .work 1, .session (.enqueue 1),
        .work 0, .work 0, .work 0, .work 0, .work 0, .session (.enqueue 0)] s ∧
      (∀ i, s.task i = none) ∧
      s.getOrderBook "BTC-USD" ≠ some (snapshot.book (delta.book b)) ∧
      s.getOrderBook "BTC-USD" ≠ some (delta.book (snapshot.book b)) := by
  intro delta snapshot b
  refine ⟨_, run_iff_exec.2 rfl, fun i => ?_, ?_, ?_⟩
  · rcases i with _ | _ | i <;> rfl
  · decide +kernel
  · decide +kernel

end Parallel

end CryptoHft
