import CryptoHft.Core.OrderBookReads
import CryptoHft.Core.Session

/-!
# The engine at the granularity of its locks

A handler call is not one step: it looks the book up under the lock of the engine, then writes the book entry by entry
and reads its top component by component, each time under the lock of the book only, and enqueues what it has read. The
map of the engine holds shared pointers, so a handler goes on with the book it has looked up when `initializeEngine`
puts a fresh one in its place.

* A handler's call is a `Task`: the writes and the reads that its book still has to see (`MarketEvent.task`). Done without
  interruption they are the book and the update of the handler (`MarketEvent.run_writes`, `MarketEvent.alone_reads`).
* When each symbol is called by one thread of its own, every run is a run of the machine whose calls are one step each:
  the session in which every task under way has been completed (`settle`, `run_settle`).
-/

namespace CryptoHft

open Machine SharedReads

/-! ## The work of a handler -/

namespace MarketEvent

variable {D : Type} [Field D] [LinearOrder D]

/-- The calls that the handler makes on the book, in order. -/
def writes : MarketEvent D → List (OrderBook.Op D)
  | snapshot s => [.setSnapshot (MarketDataEngine.toMap s.bids) (MarketDataEngine.toMap s.asks)]
  | delta d =>
    d.bidUpdates.map (fun bid => if bid.2 = 0 then .removeBid bid.1 else .updateBid bid.1 bid.2) ++
      d.askUpdates.map (fun ask => if ask.2 = 0 then .removeAsk ask.1 else .updateAsk ask.1 ask.2)

/-- The reads with which the handler fills its update. The snapshot handler reads its own maps. -/
def reads (uninit : MarketUpdate D) : MarketEvent D → Reader (OrderBook D) D (MarketUpdate D)
  | snapshot s =>
    .ret (MarketDataEngine.snapshotUpdate uninit s (MarketDataEngine.toMap s.bids) (MarketDataEngine.toMap s.asks))
  | delta d => OrderBook.publishReads d

theorem run_writes (b : OrderBook D) (ev : MarketEvent D) : b.run ev.writes = ev.book b := by
  cases ev with
  | snapshot s => rfl
  | delta d =>
    have hbids : ∀ b : OrderBook D, (d.bidUpdates.map fun bid =>
        if bid.2 = 0 then OrderBook.Op.removeBid bid.1 else .updateBid bid.1 bid.2).foldl OrderBook.apply b =
          d.bidUpdates.foldl MarketDataEngine.applyBid b := by
      intro b
      rw [List.foldl_map]
      congr
      funext b bid
      unfold MarketDataEngine.applyBid
      split <;> rfl
    have hasks : ∀ b : OrderBook D, (d.askUpdates.map fun ask =>
        if ask.2 = 0 then OrderBook.Op.removeAsk ask.1 else .updateAsk ask.1 ask.2).foldl OrderBook.apply b =
          d.askUpdates.foldl MarketDataEngine.applyAsk b := by
      intro b
      rw [List.foldl_map]
      congr
      funext b ask
      unfold MarketDataEngine.applyAsk
      split <;> rfl
    rw [writes, OrderBook.run, List.foldl_append, hbids, hasks]
    rfl

theorem alone_reads (uninit : MarketUpdate D) (b : OrderBook D) (ev : MarketEvent D) :
    alone (ev.reads uninit) b = ev.update uninit b := by
  cases ev with
  | snapshot s => rfl
  | delta d => exact OrderBook.alone_publish d b

end MarketEvent

/-- What a handler's call still has to do on the book it has looked up. -/
structure Task (D : Type) [LinearOrder D] where
  /-- The shared pointer. -/
  orderBook : ℕ
  writes : List (OrderBook.Op D)
  reads : Reader (OrderBook D) D (MarketUpdate D)

/-- The update that the task fills when nobody else works on its book, which is `b` now. -/
def Task.update {D : Type} [LinearOrder D] (t : Task D) (b : OrderBook D) : MarketUpdate D :=
  alone t.reads (b.run t.writes)

/-! ## The machine -/

structure Parallel (T D : Type) [LinearOrder D] where
  /-- The books that were ever made, each with its symbol. A shared pointer is an index. -/
  made : List (String × OrderBook D)
  orderBooks : String → Option ℕ
  updateQueue : List (T × MarketUpdate D)
  running : Bool
  updateCallback : Bool
  dispatcher : Dispatcher T D
  stopping : Bool
  task : T → Option (Task D)
  delivered : List (T × MarketUpdate D)
  enqueued : List (T × MarketUpdate D)

namespace Parallel

variable {T D : Type} [LinearOrder D]

/-- A step of a thread on the book of its task, or an event of the session; the call of a handler is its lookup. -/
inductive Event (T D : Type)
  | work (thread : T)
  | session (ev : Session.Event T D)

def ready : Parallel T D := ⟨[], fun _ => none, [], false, true, .none, false, fun _ => none, [], []⟩

/-- `orderBooks_[symbol] = std::make_shared<OrderBook>(symbol)` -/
def make (s : Parallel T D) (symbol : String) : Parallel T D :=
  { s with
    made := s.made ++ [(symbol, .empty)]
    orderBooks := Function.update s.orderBooks symbol (some s.made.length) }

@[simp] theorem make_orderBooks_self (s : Parallel T D) (x : String) : (s.make x).orderBooks x = some s.made.length :=
  Function.update_self ..

@[simp] theorem make_orderBooks_ne (s : Parallel T D) {x y : String} (h : y ≠ x) :
    (s.make x).orderBooks y = s.orderBooks y := Function.update_of_ne h ..

/-- The book that the engine has for the symbol, as it stands. -/
def getOrderBook (s : Parallel T D) (symbol : String) : Option (OrderBook D) :=
  (s.orderBooks symbol).bind fun r => s.made[r]?.map Prod.snd

def step [DecidableEq T] [Field D] (s : Parallel T D) : Event T D → Option (Parallel T D)
  | .work thread =>
    match s.task thread with
    | some ⟨r, op :: writes, reads⟩ =>
      some { s with
        made := s.made.modify r fun b => (b.1, b.2.apply op)
        task := Function.update s.task thread (some ⟨r, writes, reads⟩) }
    | some ⟨r, [], .read q k⟩ =>
      s.made[r]?.map fun b => { s with task := Function.update s.task thread (some ⟨r, [], k (q b.2)⟩) }
    | _ => none
  | .session (.initializeEngine symbols) =>
    if s.stopping then none
    else if s.running then some s
    else some { symbols.foldl make s with running := true, dispatcher := .test }
  | .session (.call thread uninit ev) =>
    match s.task thread, s.orderBooks ev.symbol with
    | some _, _ => none
    | none, none => some s
    | none, some r =>
      some { s with task := Function.update s.task thread (some ⟨r, ev.writes, ev.reads uninit⟩) }
  | .session (.enqueue thread) =>
    match s.task thread with
    | some ⟨_, [], .ret update⟩ =>
      some { s with
        updateQueue := ProducerQueue.enqueue thread update s.updateQueue
        task := Function.update s.task thread none
        enqueued := s.enqueued ++ [(thread, update)] }
    | _ => none
  | .session .test =>
    match s.dispatcher with
    | .test => some { s with dispatcher := if s.running then .dequeue else .finished }
    | _ => none
  | .session (.dequeue thread) =>
    match s.dispatcher, ProducerQueue.dequeue thread s.updateQueue with
    | .dequeue, some (update, queue) => some { s with updateQueue := queue, dispatcher := .holding thread update }
    | _, _ => none
  | .session .miss =>
    match s.dispatcher with
    | .dequeue => some { s with dispatcher := .test }
    | _ => none
  | .session .deliver =>
    match s.dispatcher with
    | .holding thread update =>
      some { s with
        dispatcher := .test
        delivered := if s.updateCallback then s.delivered ++ [(thread, update)] else s.delivered }
    | _ => none
  | .session .stop => if s.running then some { s with running := false, stopping := true } else some s
  | .session .stopReturns =>
    match s.stopping, s.dispatcher with
    | true, .finished => some { s with dispatcher := .none, stopping := false }
    | _, _ => none

/-- The event of the session that the label is. -/
def Event.session? : Event T D → Option (Session.Event T D)
  | .work _ => none
  | .session ev => some ev

/-! ## The session in which every task has been completed -/

/-- The threads that `owner` names make the calls of their symbols, and nobody else does. -/
def Event.OwnedBy (owner : String → T) : Event T D → Prop
  | .session (.call thread _ ev) => owner ev.symbol = thread
  | _ => True

/-- The book at the pointer, once the thread that works for its symbol has written what it still has to write there. -/
def settled (owner : String → T) (s : Parallel T D) (r : ℕ) : Option (OrderBook D) :=
  s.made[r]?.map fun b =>
    match s.task (owner b.1) with
    | some t => if t.orderBook = r then b.2.run t.writes else b.2
    | none => b.2

/-- The update that the thread is going to enqueue. -/
def filling (s : Parallel T D) (thread : T) : Option (MarketUpdate D) :=
  (s.task thread).bind fun t => s.made[t.orderBook]?.map fun b => t.update b.2

def settle (owner : String → T) (s : Parallel T D) : Session T D where
  engine := ⟨fun x => (s.orderBooks x).bind (s.settled owner), s.updateQueue, s.running, s.updateCallback⟩
  dispatcher := s.dispatcher
  stopping := s.stopping
  inFlight := s.filling
  delivered := s.delivered
  enqueued := s.enqueued

/-- A pointer of the map leads to a book of its symbol, and a thread works on books of its symbols only. -/
structure Owned (owner : String → T) (s : Parallel T D) : Prop where
  pointer : ∀ x r, s.orderBooks x = some r → ∃ b, s.made[r]? = some (x, b)
  task : ∀ i t, s.task i = some t → ∃ x b, s.made[t.orderBook]? = some (x, b) ∧ owner x = i

variable {owner : String → T} {s s' : Parallel T D}

/-! ### What the owner's task makes of a book -/

/-- A thread works on books that exist. -/
theorem Owned.task_made (hs : s.Owned owner) {i : T} {t : Task D} (ht : s.task i = some t) :
    t.orderBook < s.made.length := by
  obtain ⟨x, b, hb, -⟩ := hs.task i t ht
  exact (List.getElem?_eq_some_iff.1 hb).1

theorem settled_eq {r : ℕ} {x : String} {b : OrderBook D} (hr : s.made[r]? = some (x, b)) :
    s.settled owner r = some (match s.task (owner x) with
      | some t => if t.orderBook = r then b.run t.writes else b
      | none => b) := by
  rw [settled, hr, Option.map_some]

/-- A book that the thread of its symbol does not work on is settled. -/
theorem settled_of_ne {r : ℕ} {x : String} {b : OrderBook D} (hr : s.made[r]? = some (x, b))
    (ht : ∀ t, s.task (owner x) = some t → t.orderBook ≠ r) : s.settled owner r = some b := by
  rw [settled_eq hr]
  cases hc : s.task (owner x) with
  | none => rfl
  | some t => simp only [if_neg (ht t hc)]

theorem filling_eq {i : T} {t : Task D} {b : String × OrderBook D} (ht : s.task i = some t)
    (hb : s.made[t.orderBook]? = some b) : s.filling i = some (t.update b.2) := by
  rw [filling, ht, Option.bind_some, hb, Option.map_some]

/-- A thread that works on the book stands for its symbol. -/
theorem Owned.owner_eq (hs : s.Owned owner) {i : T} {t : Task D} (ht : s.task i = some t) {x : String}
    {b : OrderBook D} (hb : s.made[t.orderBook]? = some (x, b)) : owner x = i := by
  obtain ⟨x', b', hb', hx'⟩ := hs.task i t ht
  rw [hb] at hb'
  cases hb'
  exact hx'

/-! ### Steps of a thread on its book -/

variable [DecidableEq T]

/-- One turn of a thread on the book of its task, which leaves what the task would make of the book: nothing that the
session sees has changed. -/
theorem settle_turn (hs : s.Owned owner) {i : T} {t t' : Task D} (ht : s.task i = some t) {x₀ : String}
    {b₀ b₁ : OrderBook D} (hb₀ : s.made[t.orderBook]? = some (x₀, b₀)) {made : List (String × OrderBook D)}
    (hmade : made[t.orderBook]? = some (x₀, b₁)) (hmade_ne : ∀ r, t.orderBook ≠ r → made[r]? = s.made[r]?)
    (hsame : t'.orderBook = t.orderBook) (hbook : b₁.run t'.writes = b₀.run t.writes)
    (hupdate : t'.update b₁ = t.update b₀) :
    let s' := { s with made := made, task := Function.update s.task i (some t') }
    s'.Owned owner ∧ s'.settle owner = s.settle owner := by
  intro s'
  have hx₀ : owner x₀ = i := hs.owner_eq ht hb₀
  have htask : s'.task i = some t' := Function.update_self ..
  have htask_ne : ∀ j, j ≠ i → s'.task j = s.task j := fun j hj => Function.update_of_ne hj ..
  -- another thread works on another book
  have hother : ∀ j t₁, j ≠ i → s.task j = some t₁ → t.orderBook ≠ t₁.orderBook := by
    intro j t₁ hj htj he
    exact hj ((hs.owner_eq htj (he ▸ hb₀)).symm.trans hx₀)
  have hsettled : s'.settled owner = s.settled owner := by
    funext r
    by_cases hr : t.orderBook = r
    · subst hr
      rw [settled_eq hb₀, settled_eq (s := s') hmade, hx₀, ht, htask]
      simp [hsame, hbook]
    · rw [settled, settled, show s'.made[r]? = s.made[r]? from hmade_ne r hr]
      congr 1
      funext b
      by_cases hj : owner b.1 = i
      · rw [hj, ht, htask]
        simp [hsame, hr]
      · rw [htask_ne _ hj]
  have hfilling : s'.filling = s.filling := by
    funext j
    by_cases hj : j = i
    · subst hj
      rw [filling_eq ht hb₀, filling_eq (s := s') htask (hsame ▸ hmade), hupdate]
    · rw [filling, filling, htask_ne j hj]
      cases htj : s.task j with
      | none => rfl
      | some t₁ => rw [Option.bind_some, Option.bind_some, hmade_ne _ (hother j t₁ hj htj)]
  refine ⟨⟨fun x r hx => ?_, fun j t₁ hj => ?_⟩, ?_⟩
  · obtain ⟨b, hb⟩ := hs.pointer x r hx
    by_cases hr : t.orderBook = r
    · subst hr
      rw [hb₀] at hb
      cases hb
      exact ⟨b₁, hmade⟩
    · exact ⟨b, (hmade_ne r hr).trans hb⟩
  · by_cases hji : j = i
    · subst hji
      rw [htask] at hj
      cases hj
      exact ⟨x₀, b₁, hsame ▸ hmade, hx₀⟩
    · rw [htask_ne j hji] at hj
      obtain ⟨x, b, hb, hx⟩ := hs.task j t₁ hj
      exact ⟨x, b, (hmade_ne _ (hother j t₁ hji hj)).trans hb, hx⟩
  · simp only [settle, hsettled, hfilling]
    rfl

variable [Field D]

/-- A thread's writes and reads are invisible to the session. -/
theorem step_work (hs : s.Owned owner) {i : T} (h : step s (.work i) = some s') :
    s'.Owned owner ∧ s'.settle owner = s.settle owner := by
  rw [step] at h
  split at h
  · next r op writes reads ht =>
    obtain ⟨x₀, b₀, hb₀, -⟩ := hs.task i _ ht
    cases h
    have hmade : (s.made.modify r fun b => (b.1, b.2.apply op))[r]? = some (x₀, b₀.apply op) := by
      rw [List.getElem?_modify_eq, hb₀]
      rfl
    exact settle_turn hs ht hb₀ hmade (fun _ hr => List.getElem?_modify_ne _ _ hr) rfl rfl rfl
  · next r q k ht =>
    obtain ⟨⟨x₀, b₀⟩, hb₀, rfl⟩ := Option.map_eq_some_iff.1 h
    exact settle_turn hs ht hb₀ hb₀ (fun _ _ => rfl) rfl rfl rfl
  · cases h

/-! ### Events of the session -/

omit [DecidableEq T] [Field D] in
/-- A fresh book: the session gets an empty one for the symbol, and who works on the old one goes on with it. -/
theorem settle_make (hs : s.Owned owner) (x : String) :
    (s.make x).Owned owner ∧ (s.make x).settle owner =
      { s.settle owner with
        engine := { (s.settle owner).engine with
          orderBooks := Function.update (s.settle owner).engine.orderBooks x (some .empty) } } := by
  have hold : ∀ r, r < s.made.length → (s.make x).made[r]? = s.made[r]? :=
    fun r hr => List.getElem?_append_left hr
  have hnew : (s.make x).made[s.made.length]? = some (x, .empty) := List.getElem?_concat_length
  have hpointer : ∀ y r, s.orderBooks y = some r → r < s.made.length := by
    intro y r hy
    obtain ⟨b, hb⟩ := hs.pointer y r hy
    exact (List.getElem?_eq_some_iff.1 hb).1
  have hfilling : (s.make x).filling = s.filling := by
    funext j
    rw [filling, filling, show (s.make x).task = s.task from rfl]
    cases htj : s.task j with
    | none => rfl
    | some t => rw [Option.bind_some, Option.bind_some, hold _ (hs.task_made htj)]
  have hbooks : (fun y => ((s.make x).orderBooks y).bind ((s.make x).settled owner)) =
      Function.update (fun y => (s.orderBooks y).bind (s.settled owner)) x (some .empty) := by
    funext y
    by_cases hy : y = x
    · subst hy
      rw [make_orderBooks_self, Function.update_self, Option.bind_some]
      exact settled_of_ne hnew fun t ht => (hs.task_made ht).ne
    · rw [make_orderBooks_ne s hy, Function.update_of_ne hy]
      cases hr : s.orderBooks y with
      | none => rfl
      | some r =>
        rw [Option.bind_some, Option.bind_some, settled, settled]
        exact congrArg _ (hold r (hpointer y r hr))
  refine ⟨⟨fun y r hy => ?_, fun j t hj => ?_⟩, ?_⟩
  · by_cases hxy : y = x
    · subst hxy
      rw [make_orderBooks_self] at hy
      cases hy
      exact ⟨_, hnew⟩
    · rw [make_orderBooks_ne s hxy] at hy
      obtain ⟨b, hb⟩ := hs.pointer y r hy
      exact ⟨b, (hold r (hpointer y r hy)).trans hb⟩
  · obtain ⟨y, b, hb, hy⟩ := hs.task j t hj
    exact ⟨y, b, (hold _ (hs.task_made hj)).trans hb, hy⟩
  · simp only [settle, hfilling, hbooks]
    rfl

omit [DecidableEq T] [Field D] in
theorem settle_initializeEngine (hs : s.Owned owner) (hr : s.running = false) (symbols : List String) :
    let s' := { symbols.foldl make s with running := true, dispatcher := .test }
    s'.Owned owner ∧ s'.settle owner =
      { s.settle owner with
        engine := (s.settle owner).engine.initializeEngine symbols
        dispatcher := .test } := by
  have hmake : ∀ s : Parallel T D, s.Owned owner →
      (symbols.foldl make s).Owned owner ∧ (symbols.foldl make s).settle owner =
        { s.settle owner with
          engine := { (s.settle owner).engine with
            orderBooks := symbols.foldl (fun books symbol => Function.update books symbol (some .empty))
              (s.settle owner).engine.orderBooks } } := by
    induction symbols with
    | nil => exact fun s hs => ⟨hs, rfl⟩
    | cons x symbols ih =>
      intro s hs
      obtain ⟨hs₁, heq₁⟩ := settle_make hs x
      obtain ⟨hs₂, heq₂⟩ := ih _ hs₁
      refine ⟨hs₂, ?_⟩
      rw [List.foldl_cons, heq₂, heq₁]
      rfl
  obtain ⟨hs₁, heq⟩ := hmake s hs
  refine ⟨⟨hs₁.pointer, hs₁.task⟩, ?_⟩
  have hrun : (s.settle owner).engine.running = false := hr
  simp only [MarketDataEngine.initializeEngine, hrun, Bool.false_eq_true, ↓reduceIte]
  exact congrArg (fun r : Session T D => { r with engine := { r.engine with running := true }, dispatcher := .test }) heq

/-- A lookup that finds a book: in the session, the whole call. -/
theorem settle_call (hs : s.Owned owner) {ev : MarketEvent D} (uninit : MarketUpdate D) {r : ℕ}
    (ht : s.task (owner ev.symbol) = none) (hr : s.orderBooks ev.symbol = some r) :
    let s' := { s with
      task := Function.update s.task (owner ev.symbol) (some ⟨r, ev.writes, ev.reads uninit⟩) }
    s'.Owned owner ∧ ∃ b, (s.settle owner).engine.orderBooks ev.symbol = some b ∧ s'.settle owner =
      { s.settle owner with
        engine := { (s.settle owner).engine with
          orderBooks := Function.update (s.settle owner).engine.orderBooks ev.symbol (some (ev.book b)) }
        inFlight := Function.update (s.settle owner).inFlight (owner ev.symbol) (some (ev.update uninit (ev.book b))) } := by
  intro s'
  obtain ⟨b, hb⟩ := hs.pointer _ r hr
  have htask : s'.task (owner ev.symbol) = some ⟨r, ev.writes, ev.reads uninit⟩ := Function.update_self ..
  have htask_ne : ∀ j, j ≠ owner ev.symbol → s'.task j = s.task j := fun j hj => Function.update_of_ne hj ..
  have hold : s.settled owner r = some b := settled_of_ne hb fun t h => by
    rw [ht] at h
    cases h
  have hbooks : (fun y => (s.orderBooks y).bind (s'.settled owner)) =
      Function.update (fun y => (s.orderBooks y).bind (s.settled owner)) ev.symbol (some (ev.book b)) := by
    funext y
    by_cases hy : y = ev.symbol
    · subst hy
      rw [Function.update_self, hr, Option.bind_some, settled_eq (s := s') hb, htask, ← MarketEvent.run_writes]
      simp
    · rw [Function.update_of_ne hy]
      cases hy' : s.orderBooks y with
      | none => rfl
      | some r' =>
        obtain ⟨b', hb'⟩ := hs.pointer y r' hy'
        have hne : r ≠ r' := fun he => by
          subst he
          rw [hb] at hb'
          cases hb'
          exact hy rfl
        rw [Option.bind_some, Option.bind_some, settled_eq (s := s') hb', settled_eq hb']
        by_cases hj : owner y = owner ev.symbol
        · rw [hj, htask, ht]
          simp [hne]
        · rw [htask_ne _ hj]
  have hfilling : s'.filling = Function.update s.filling (owner ev.symbol) (some (ev.update uninit (ev.book b))) := by
    funext j
    by_cases hj : j = owner ev.symbol
    · subst hj
      rw [Function.update_self, filling_eq (s := s') htask hb, Task.update, MarketEvent.alone_reads,
        MarketEvent.run_writes]
    · rw [Function.update_of_ne hj, filling, filling, htask_ne j hj]
  refine ⟨⟨hs.pointer, fun j t hj => ?_⟩, b, ?_, ?_⟩
  · by_cases hji : j = owner ev.symbol
    · subst hji
      rw [htask] at hj
      cases hj
      exact ⟨ev.symbol, b, hb, rfl⟩
    · rw [htask_ne j hji] at hj
      exact hs.task j t hj
  · simp only [settle, hr, Option.bind_some, hold]
  · simp only [settle, hfilling]
    rw [← hbooks]

omit [Field D] in
/-- A task that is done. -/
theorem settle_enqueue (hs : s.Owned owner) {i : T} {r : ℕ} {update : MarketUpdate D}
    (ht : s.task i = some ⟨r, [], .ret update⟩) (queue enqueued : List (T × MarketUpdate D)) :
    let s' := { s with updateQueue := queue, task := Function.update s.task i none, enqueued := enqueued }
    s'.Owned owner ∧ (s.settle owner).inFlight i = some update ∧ s'.settle owner =
      { s.settle owner with
        engine := { (s.settle owner).engine with updateQueue := queue }
        inFlight := Function.update (s.settle owner).inFlight i none
        enqueued := enqueued } := by
  intro s'
  obtain ⟨x, b, hb, hx⟩ := hs.task i _ ht
  have htask : s'.task i = none := Function.update_self ..
  have htask_ne : ∀ j, j ≠ i → s'.task j = s.task j := fun j hj => Function.update_of_ne hj ..
  have hsettled : s'.settled owner = s.settled owner := by
    funext r'
    rw [settled, settled]
    congr 1
    funext b
    by_cases hj : owner b.1 = i
    · rw [hj, ht, htask]
      simp [OrderBook.run]
    · rw [htask_ne _ hj]
  have hfilling : s'.filling = Function.update s.filling i none := by
    funext j
    by_cases hj : j = i
    · subst hj
      rw [Function.update_self, filling, htask, Option.bind_none]
    · rw [Function.update_of_ne hj, filling, filling, htask_ne j hj]
  refine ⟨⟨hs.pointer, fun j t hj => ?_⟩, filling_eq ht hb, ?_⟩
  · by_cases hji : j = i
    · subst hji
      rw [htask] at hj
      cases hj
    · rw [htask_ne j hji] at hj
      exact hs.task j t hj
  · simp only [settle, hsettled, hfilling]
    rfl

/-- Every other step is the step of the session. -/
theorem step_session (hs : s.Owned owner) {ev : Session.Event T D} (hev : (Event.session ev).OwnedBy owner)
    (h : step s (.session ev) = some s') :
    s'.Owned owner ∧ Session.step (s.settle owner) ev = some (s'.settle owner) := by
  -- the fields other than the books, the queue and the tasks are those of the session
  have hkeep : ∀ {queue : List (T × MarketUpdate D)} {running : Bool} {d : Dispatcher T D} {stopping : Bool}
      {delivered : List (T × MarketUpdate D)}, Owned owner { s with
        updateQueue := queue, running := running, dispatcher := d, stopping := stopping, delivered := delivered } :=
    ⟨hs.pointer, hs.task⟩
  cases ev with
  | initializeEngine symbols =>
    rw [step] at h
    split at h
    · cases h
    · next hst =>
      split at h
      · next hr =>
        cases h
        exact ⟨hs, by simp only [Session.step, settle, hst, hr]; rfl⟩
      · next hr =>
        cases h
        obtain ⟨hs', heq⟩ := settle_initializeEngine hs (Bool.not_eq_true _ ▸ hr) symbols
        refine ⟨hs', ?_⟩
        have hst' : ¬ (s.settle owner).stopping = true := hst
        have hr' : ¬ (s.settle owner).engine.running = true := hr
        rw [heq, Session.step, if_neg hst', if_neg hr']
  | call thread uninit ev =>
    have howner : owner ev.symbol = thread := hev
    subst howner
    rw [step] at h
    split at h
    · cases h
    · next ht hr =>
      cases h
      refine ⟨hs, ?_⟩
      have hnone : (s.settle owner).inFlight (owner ev.symbol) = none := by simp only [settle, filling, ht]; rfl
      have hbook : (s.settle owner).engine.getOrderBook ev.symbol = none := by
        simp only [MarketDataEngine.getOrderBook, settle, hr]
        rfl
      simp only [Session.step, hnone, MarketDataEngine.start, hbook]
      rw [← hnone, Function.update_eq_self]
    · next r ht hr =>
      cases h
      obtain ⟨hs', b, hb, heq⟩ := settle_call hs uninit ht hr
      refine ⟨hs', ?_⟩
      have hnone : (s.settle owner).inFlight (owner ev.symbol) = none := by simp only [settle, filling, ht]; rfl
      have hbook : (s.settle owner).engine.getOrderBook ev.symbol = some b := hb
      rw [heq]
      simp only [Session.step, hnone, MarketDataEngine.start, hbook]
  | enqueue thread =>
    rw [step] at h
    split at h
    · next r update ht =>
      cases h
      obtain ⟨hs', hf, heq⟩ := settle_enqueue hs ht (ProducerQueue.enqueue thread update s.updateQueue)
        (s.enqueued ++ [(thread, update)])
      refine ⟨hs', ?_⟩
      rw [heq]
      simp only [Session.step, hf]
      rfl
    · cases h
  | test =>
    rw [step] at h
    split at h
    · next hd =>
      cases h
      exact ⟨hkeep, by simp only [Session.step, settle, hd]; rfl⟩
    · cases h
  | dequeue thread =>
    rw [step] at h
    split at h
    · next update queue hd hq =>
      cases h
      exact ⟨hkeep, by simp only [Session.step, settle, hd, hq]; rfl⟩
    · cases h
  | miss =>
    rw [step] at h
    split at h
    · next hd =>
      cases h
      exact ⟨hkeep, by simp only [Session.step, settle, hd]; rfl⟩
    · cases h
  | deliver =>
    rw [step] at h
    split at h
    · next thread update hd =>
      cases h
      exact ⟨hkeep, by simp only [Session.step, settle, hd]; rfl⟩
    · cases h
  | stop =>
    rw [step] at h
    split at h
    · next hr =>
      cases h
      exact ⟨hkeep, by simp only [Session.step, settle, hr]; rfl⟩
    · next hr =>
      cases h
      exact ⟨hs, by simp only [Session.step, settle, hr]; rfl⟩
  | stopReturns =>
    rw [step] at h
    split at h
    · next hst hd =>
      cases h
      exact ⟨hkeep, by simp only [Session.step, settle, hst, hd]; rfl⟩
    · cases h

/-! ## Runs -/

omit [DecidableEq T] [Field D] in
theorem ready_owned : (ready : Parallel T D).Owned owner := ⟨nofun, nofun⟩

theorem owned_run {es : List (Event T D)} (h : Run step ready es s) (hes : ∀ e ∈ es, e.OwnedBy owner) :
    s.Owned owner ∧ Run Session.step Session.ready (es.filterMap Event.session?) (s.settle owner) := by
  have hok : Along step (fun _ e => e.OwnedBy owner) ready es := by
    rintro pre e post _ rfl -
    exact hes e (by simp)
  let R : Parallel T D → Session T D → Prop := fun s t => s.Owned owner ∧ t = s.settle owner
  have hsilent : ∀ s e s' t, R s t → e.OwnedBy owner → step s e = some s' → e.session? = none → R s' t := by
    rintro s e s' t ⟨hs, rfl⟩ - hst hnone
    cases e with
    | work i =>
      obtain ⟨hs', heq⟩ := step_work hs hst
      exact ⟨hs', heq.symm⟩
    | session ev => cases hnone
  have hmatch : ∀ s e s' t f, R s t → e.OwnedBy owner → step s e = some s' → e.session? = some f →
      ∃ t', Session.step t f = some t' ∧ R s' t' := by
    rintro s e s' t f ⟨hs, rfl⟩ hev hst hsome
    cases e with
    | work i => cases hsome
    | session ev =>
      cases hsome
      obtain ⟨hs', hstep⟩ := step_session hs hev hst
      exact ⟨_, hstep, hs', rfl⟩
  obtain ⟨t, hrun, hs, rfl⟩ := h.simulates Event.session? hsilent hmatch hok ⟨ready_owned, rfl⟩
  exact ⟨hs, hrun⟩

omit [DecidableEq T] [Field D] in
/-- Without calls under way, the session is the state itself. -/
theorem settle_quiet (owner : String → T) (hquiet : ∀ i, s.task i = none) :
    (∀ x, (s.settle owner).engine.getOrderBook x = s.getOrderBook x) ∧ ∀ i, (s.settle owner).inFlight i = none := by
  refine ⟨fun x => ?_, fun i => ?_⟩
  · have hsettled : s.settled owner = fun r => s.made[r]?.map Prod.snd := by
      funext r
      simp only [settled, hquiet]
    simp only [MarketDataEngine.getOrderBook, settle, getOrderBook, hsettled]
  · simp only [settle, filling, hquiet, Option.bind_none]

/-- **Refinement**: at the granularity of the locks the engine runs as the session does, whose calls are one step each,
when each symbol is called by one thread of its own. A state without calls under way is the state of the session. -/
theorem run_settle {es : List (Event T D)} (h : Run step ready es s) (hes : ∀ e ∈ es, e.OwnedBy owner) :
    Run Session.step Session.ready (es.filterMap Event.session?) (s.settle owner) ∧
      ((∀ i, s.task i = none) →
        (∀ x, (s.settle owner).engine.getOrderBook x = s.getOrderBook x) ∧ ∀ i, (s.settle owner).inFlight i = none) :=
  ⟨(owned_run h hes).2, settle_quiet owner⟩

section Example

def noUpdate : MarketUpdate ℚ := ⟨"", 0, 0, 0, 0, 0, false⟩

def coinbaseOwner : String → ℕ := fun x => if x = "BTC-USD" then 0 else 1

def coinbaseTick : MarketEvent ℚ := .delta ⟨"BTC-USD", [(100, 1)], [], 7⟩

def krakenTick : MarketEvent ℚ := .delta ⟨"XBT/USD", [], [(102, 2)], 8⟩

/-- The two threads call the handlers at the same time, and take turns. -/
def turnsTaken : List (Event ℕ ℚ) :=
  [.session (.initializeEngine ["BTC-USD", "XBT/USD"]),
    .session (.call 0 noUpdate coinbaseTick), .session (.call 1 noUpdate krakenTick),
    .work 0, .work 1, .work 1, .work 0, .work 1, .work 0, .work 0, .work 1, .work 1, .work 0,
    .session (.enqueue 1), .session (.enqueue 0)]

theorem turnsTaken_owned : ∀ e ∈ turnsTaken, e.OwnedBy coinbaseOwner := by
  simp [turnsTaken, Event.OwnedBy, coinbaseOwner, coinbaseTick, krakenTick, MarketEvent.symbol]

theorem turnsTaken_run : ∃ s : Parallel ℕ ℚ, Run step ready turnsTaken s ∧ ∀ i, s.task i = none := by
  refine ⟨_, run_iff_exec.2 rfl, fun i => ?_⟩
  rcases i with _ | _ | i <;> rfl

/-- The two calls, a turn of one between two turns of the other, are calls of the session. -/
theorem turnsTaken_settle : ∃ s : Parallel ℕ ℚ, Run step ready turnsTaken s ∧
    Run Session.step Session.ready (turnsTaken.filterMap Event.session?) (s.settle coinbaseOwner) := by
  obtain ⟨s, hs, -⟩ := turnsTaken_run
  exact ⟨s, hs, (run_settle hs turnsTaken_owned).1⟩

end Example

end Parallel

end CryptoHft
