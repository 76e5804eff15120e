import CryptoHft.Core.Serial
import CryptoHft.Exchanges.Threads
import CryptoHft.Exchanges.Feed

/-!
# The engine and its adapters

The whole path of the market data: an engine at the granularity of its locks, and its adapters, each with an IO thread.
`initialize` registers the callbacks of the engine with every adapter; from then on the IO thread of an adapter calls
the engine when it handles a document, and handles nothing else before the call has ended.

* Seen from the engine, a run of the whole is a run of its own, in which the adapters make the calls (`run_project`).
* So if the documents are readable, every symbol comes from one adapter, and what the documents hold about a symbol are
  messages of its exchange, one of them a snapshot, then whenever no call is under way the book of the symbol follows the
  book of the exchange, whatever the other adapters, the dispatcher and the user do in between (`run_followed`).
-/

namespace CryptoHft

open Machine OrderedMap

/-- An adapter for each thread that calls the engine. -/
structure Wiring (T D : Type) [LinearOrder D] where
  engine : Parallel T D
  adapters : T → Adapter D

namespace Wiring

/-- A step of the engine, or of an adapter: its user, or the network, does something. -/
inductive Event (T D : Type)
  | engine (ev : Parallel.Event T D)
  | adapter (thread : T) (ev : Connection.Event)

/-! ## What the engine sees -/

section Sees

variable {T D : Type} (conv : Conversions D) (uninit : MarketUpdate D) (ex : T → Exchange)

/-- The calls of the engine by the IO thread of an adapter. -/
def callbacks (thread : T) (evs : List (MarketEvent D)) : List (Parallel.Event T D) :=
  evs.map fun ev => .session (.call thread uninit ev)

/-- What the engine sees of an event, once it has registered its callbacks. -/
def engineEvents : Event T D → List (Parallel.Event T D)
  | .engine (.session (.call ..)) => []
  | .engine ev => [ev]
  | .adapter thread ev => callbacks uninit thread (Feed.received conv (ex thread) ev).toList

/-- A document that an adapter receives is readable. -/
def Event.Readable : Event T D → Prop
  | .engine _ => True
  | .adapter thread ev => Feed.Readable conv (ex thread) ev

/-- What the document holds that an adapter receives. -/
def held : Event T D → List (MarketEvent D)
  | .engine _ => []
  | .adapter thread ev => Feed.held conv (ex thread) ev

/-- What an adapter receives is about symbols that `owner` gives it. -/
def Event.Owned (owner : String → T) : Event T D → Prop
  | .engine _ => True
  | .adapter thread ev => ∀ m ∈ Feed.held conv (ex thread) ev, owner m.symbol = thread

/-- What the documents hold about the symbol. -/
def documents (x : String) (es : List (Event T D)) : List (MarketEvent D) :=
  (es.flatMap (held conv ex)).filter fun ev => ev.symbol = x

variable {conv uninit ex} {e : Event T D}

theorem engineEvents_owned {owner : String → T} (hr : e.Readable conv ex) (h : e.Owned conv ex owner) :
    ∀ f ∈ engineEvents conv uninit ex e, f.OwnedBy owner := by
  intro f hf
  cases e with
  | engine ev =>
    cases ev with
    | work thread => cases List.mem_singleton.1 hf; trivial
    | session ev =>
      cases ev with
      | call => cases hf
      | _ => cases List.mem_singleton.1 hf; trivial
  | adapter thread ev =>
    obtain ⟨m, hm, rfl⟩ := List.mem_map.1 hf
    rw [Feed.received_eq_held hr] at hm
    exact h m hm

theorem delivers_sublist (s : Adapter D) (ex : Exchange) (ev : Connection.Event) :
    (Connection.delivers conv ex s ev).Sublist (Feed.received conv ex ev).toList := by
  cases ev with
  | readCompletes completion =>
    cases completion with
    | readError attempt => exact List.Sublist.refl _
    | message now doc => exact List.filter_sublist
  | _ => exact List.Sublist.refl _

/-- The engine sees an initialisation where there is one. -/
theorem eq_of_initialize_mem {symbols : List String}
    (h : .session (.initializeEngine symbols) ∈ engineEvents conv uninit ex e) :
    e = .engine (.session (.initializeEngine symbols)) := by
  cases e with
  | adapter thread ev =>
    obtain ⟨m, -, hm⟩ := List.mem_map.1 h
    cases hm
  | engine ev =>
    cases ev with
    | work thread => cases List.mem_singleton.1 h
    | session ev =>
      cases ev with
      | call => cases h
      | initializeEngine symbols' => cases List.mem_singleton.1 h; rfl
      | _ => cases List.mem_singleton.1 h

theorem exists_initialize {es : List (Event T D)} {mid rest : List (Parallel.Event T D)} {symbols : List String}
    (h : es.flatMap (engineEvents conv uninit ex) = mid ++ .session (.initializeEngine symbols) :: rest) :
    ∃ mid' rest', es = mid' ++ .engine (.session (.initializeEngine symbols)) :: rest' ∧
      mid'.flatMap (engineEvents conv uninit ex) = mid := by
  induction es generalizing mid with
  | nil => simp at h
  | cons e es ih =>
    rw [List.flatMap_cons] at h
    rcases List.append_eq_append_iff.1 h with ⟨as, rfl, hrest⟩ | ⟨bs, hfirst, hrest⟩
    · obtain ⟨mid', rest', rfl, rfl⟩ := ih hrest
      exact ⟨e :: mid', rest', rfl, rfl⟩
    · cases bs with
      | nil =>
        have hnone : es.flatMap (engineEvents conv uninit ex) = [] ++ .session (.initializeEngine symbols) :: rest :=
          hrest.symm
        obtain ⟨mid', rest', rfl, hmid⟩ := ih hnone
        refine ⟨e :: mid', rest', rfl, ?_⟩
        rw [List.flatMap_cons, hmid, hfirst, List.append_nil, List.append_nil]
      | cons f bs =>
        obtain ⟨rfl, -⟩ := List.cons_eq_cons.1 hrest
        have hmem : .session (.initializeEngine symbols) ∈ engineEvents conv uninit ex e := by
          rw [hfirst]
          exact List.mem_append_right _ List.mem_cons_self
        obtain rfl := eq_of_initialize_mem hmem
        obtain ⟨rfl, -⟩ | ⟨-, hnil⟩ := List.append_eq_singleton_iff.1 hfirst.symm
        · exact ⟨[], es, rfl, rfl⟩
        · cases hnil

theorem callsOf_callbacks (x : String) (thread : T) (evs : List (MarketEvent D)) :
    Session.callsOf x ((callbacks uninit thread evs).filterMap Parallel.Event.session?) =
      evs.filter fun ev => ev.symbol = x := by
  induction evs with
  | nil => rfl
  | cons ev evs ih =>
    refine (Session.callsOf_call x thread uninit ev _).trans ?_
    rw [List.filter_cons]
    by_cases hx : ev.symbol = x
    · rw [if_pos hx, if_pos (decide_eq_true hx)]
      exact congrArg (ev :: ·) ih
    · rw [if_neg hx, if_neg (by simpa using hx)]
      exact ih

theorem callsOf_engineEvents (x : String) {es : List (Event T D)} (h : ∀ e ∈ es, e.Readable conv ex) :
    Session.callsOf x ((es.flatMap (engineEvents conv uninit ex)).filterMap Parallel.Event.session?) =
      documents conv ex x es := by
  have happend : ∀ fs gs : List (Session.Event T D),
      Session.callsOf x (fs ++ gs) = Session.callsOf x fs ++ Session.callsOf x gs :=
    fun fs gs => List.filterMap_append
  induction es with
  | nil => rfl
  | cons e es ih =>
    obtain ⟨he, hes⟩ := List.forall_mem_cons.1 h
    rw [List.flatMap_cons, List.filterMap_append, happend, ih hes, documents, documents, List.flatMap_cons,
      List.filter_append]
    cases e with
    | adapter thread ev =>
      rw [engineEvents, callsOf_callbacks, Feed.received_eq_held he]
      rfl
    | engine ev =>
      cases ev with
      | work thread => rfl
      | session ev => cases ev <;> rfl

end Sees

/-! ## Runs of the whole -/

variable {T D : Type} [LinearOrder D]

def ready : Wiring T D := ⟨.ready, fun _ => .constructed⟩

variable [DecidableEq T] [Field D] (conv : Conversions D) (uninit : MarketUpdate D) (ex : T → Exchange)

def step (s : Wiring T D) : Event T D → Option (Wiring T D)
  -- only the adapters call the handlers, and only the engine registers callbacks
  | .engine (.session (.call ..)) | .adapter _ .registerOrderBookCallback | .adapter _ .registerOrderBookDeltaCallback =>
    none
  | .engine (.session (.initializeEngine symbols)) =>
    (s.engine.step (.session (.initializeEngine symbols))).map fun engine =>
      { engine
        adapters :=
          if s.engine.running then s.adapters
          else fun thread => (s.adapters thread).registerOrderBookCallback.registerOrderBookDeltaCallback }
  | .engine ev => (s.engine.step ev).map fun engine => { s with engine }
  | .adapter thread ev =>
    -- the IO thread is in a callback
    if ev.Handled ∧ (s.engine.task thread).isSome then none
    else
      (Connection.step conv (ex thread) (s.adapters thread) ev).bind fun adapter =>
        (exec Parallel.step s.engine
            (callbacks uninit thread (adapter.calls.drop (s.adapters thread).calls.length))).map fun engine =>
          { engine, adapters := Function.update s.adapters thread adapter }

/-- The callbacks are registered with every adapter. -/
def Listens (s : Wiring T D) : Prop := ∀ thread, Connection.Listening (s.adapters thread)

variable {conv uninit ex} {s s' : Wiring T D} {e : Event T D}

/-- The step of an adapter. -/
theorem adapter_step {thread : T} {ev : Connection.Event} (h : step conv uninit ex s (.adapter thread ev) = some s') :
    Connection.step conv (ex thread) (s.adapters thread) ev = some (s'.adapters thread) ∧
      (∀ other, other ≠ thread → s'.adapters other = s.adapters other) ∧
      Run Parallel.step s.engine
        (callbacks uninit thread (Connection.delivers conv (ex thread) (s.adapters thread) ev)) s'.engine := by
  have hstep : (Connection.step conv (ex thread) (s.adapters thread) ev).bind (fun adapter =>
      (exec Parallel.step s.engine
          (callbacks uninit thread (adapter.calls.drop (s.adapters thread).calls.length))).map fun engine =>
        { engine, adapters := Function.update s.adapters thread adapter }) = some s' := by
    cases ev with
    | registerOrderBookCallback | registerOrderBookDeltaCallback => cases h
    | _ =>
      simp only [step] at h
      split at h
      · cases h
      · exact h
  obtain ⟨adapter, ha, hcalls⟩ := Option.bind_eq_some_iff.1 hstep
  obtain ⟨engine, he, rfl⟩ := Option.map_eq_some_iff.1 hcalls
  rw [Connection.step_calls ha, List.drop_left] at he
  have hself : Function.update s.adapters thread adapter thread = adapter := Function.update_self ..
  exact ⟨ha.trans (congrArg some hself.symm), fun other ho => Function.update_of_ne ho .., run_iff_exec.2 he⟩

theorem step_project (h : step conv uninit ex s e = some s') :
    ∃ fs, Run Parallel.step s.engine fs s'.engine ∧ fs.Sublist (engineEvents conv uninit ex e) ∧
      (s.Listens → fs = engineEvents conv uninit ex e ∧ s'.Listens) := by
  cases e with
  | adapter thread ev =>
    obtain ⟨ha, hother, hrun⟩ := adapter_step h
    refine ⟨_, hrun, (delivers_sublist ..).map _, fun hl => ⟨?_, fun other => ?_⟩⟩
    · rw [Feed.delivers_eq (hl thread)]
      rfl
    · by_cases ho : other = thread
      · subst ho
        exact Connection.step_listening (hl other) ha
      · rw [hother other ho]
        exact hl other
  | engine ev =>
    cases ev with
    | work thread =>
      obtain ⟨engine, he, rfl⟩ := Option.map_eq_some_iff.1 h
      exact ⟨_, .single he, List.Sublist.refl _, fun hl => ⟨rfl, hl⟩⟩
    | session ev =>
      cases ev with
      | call => cases h
      | initializeEngine symbols =>
        obtain ⟨engine, he, rfl⟩ := Option.map_eq_some_iff.1 h
        refine ⟨_, .single he, List.Sublist.refl _, fun hl => ⟨rfl, fun thread => ?_⟩⟩
        dsimp only
        split
        · exact hl thread
        · exact ⟨rfl, rfl⟩
      | _ =>
        obtain ⟨engine, he, rfl⟩ := Option.map_eq_some_iff.1 h
        exact ⟨_, .single he, List.Sublist.refl _, fun hl => ⟨rfl, hl⟩⟩

/-- **The run of the engine** in a run of the whole: once the callbacks are registered, the adapters make a call for every
event that they receive. -/
theorem run_project {owner : String → T} {es : List (Event T D)} (h : Run (step conv uninit ex) s es s')
    (hreadable : ∀ e ∈ es, e.Readable conv ex) (hes : ∀ e ∈ es, e.Owned conv ex owner) :
    ∃ fs, Run Parallel.step s.engine fs s'.engine ∧ (∀ f ∈ fs, f.OwnedBy owner) ∧
      (s.Listens → fs = es.flatMap (engineEvents conv uninit ex) ∧ s'.Listens) := by
  induction h with
  | nil s => exact ⟨[], .nil _, nofun, fun hl => ⟨rfl, hl⟩⟩
  | cons hst _ ih =>
    obtain ⟨hr, hrs⟩ := List.forall_mem_cons.1 hreadable
    obtain ⟨he, hes⟩ := List.forall_mem_cons.1 hes
    obtain ⟨fs, hfs, hsub, hfirst⟩ := step_project hst
    obtain ⟨gs, hgs, howned, hrest⟩ := ih hrs hes
    refine ⟨fs ++ gs, hfs.append hgs, fun f hf => ?_, fun hl => ?_⟩
    · rcases List.mem_append.1 hf with hf | hf
      · exact engineEvents_owned hr he f (hsub.subset hf)
      · exact howned f hf
    · obtain ⟨rfl, hl'⟩ := hfirst hl
      obtain ⟨rfl, hl''⟩ := hrest hl'
      exact ⟨rfl, hl''⟩

theorem Listens.run_project {owner : String → T} {es : List (Event T D)} (hl : s.Listens)
    (h : Run (step conv uninit ex) s es s') (hreadable : ∀ e ∈ es, e.Readable conv ex)
    (hes : ∀ e ∈ es, e.Owned conv ex owner) :
    Run Parallel.step s.engine (es.flatMap (engineEvents conv uninit ex)) s'.engine ∧
      ∀ f ∈ es.flatMap (engineEvents conv uninit ex), f.OwnedBy owner := by
  obtain ⟨fs, hfs, howned, heq⟩ := Wiring.run_project h hreadable hes
  obtain ⟨rfl, -⟩ := heq hl
  exact ⟨hfs, howned⟩

/-! ## The books -/

/-- **The books follow the exchanges**: an initialisation finds the engine stopped and lists the symbol, and no later one
does. If the documents are readable, each symbol comes from one adapter, and what the documents since then hold about this
symbol are messages of its exchange, one of them a snapshot, then whenever no call is under way the book of the symbol has
the asks of the exchange's book, and no bid that the exchange's has not. -/
theorem run_followed {owner : String → T} {s₀ s₁ : Wiring T D} {pre post : List (Event T D)} {symbols : List String}
    {x : String} {l : Ladder D D} (hpre : Run (step conv uninit ex) ready pre s₀)
    (hinit : step conv uninit ex s₀ (.engine (.session (.initializeEngine symbols))) = some s₁)
    (hstopped : s₀.engine.running = false) (hx : x ∈ symbols) (hpost : Run (step conv uninit ex) s₁ post s)
    (hlater : ∀ mid symbols' rest t, post = mid ++ .engine (.session (.initializeEngine symbols')) :: rest →
      Run (step conv uninit ex) s₁ mid t → x ∈ symbols' → t.engine.running = true)
    (hreadable : ∀ e ∈ pre ++ post, e.Readable conv ex) (howned : ∀ e ∈ pre ++ post, e.Owned conv ex owner)
    (hquiet : ∀ thread, s.engine.task thread = none) (hunc : l.Uncrossed)
    (hhonest : HonestFrom l (documents conv ex x post))
    (hsnapshot : ∃ snapshot, .snapshot snapshot ∈ documents conv ex x post) :
    ∃ b, s.engine.getOrderBook x = some b ∧ b.Uncrossed ∧ Follows b (announcedAll l (documents conv ex x post)) := by
  obtain ⟨fs₀, hfs₀, howned₀, -⟩ := run_project hpre (fun e he => hreadable e (List.mem_append_left _ he))
    fun e he => howned e (List.mem_append_left _ he)
  have hreadable₁ : ∀ e ∈ post, e.Readable conv ex := fun e he => hreadable e (List.mem_append_right _ he)
  have howned₁ : ∀ e ∈ post, e.Owned conv ex owner := fun e he => howned e (List.mem_append_right _ he)
  have hstart : Parallel.step s₀.engine (.session (.initializeEngine symbols)) = some s₁.engine ∧ s₁.Listens := by
    obtain ⟨engine, he, rfl⟩ := Option.map_eq_some_iff.1 hinit
    refine ⟨he, fun thread => ?_⟩
    dsimp only
    rw [hstopped]
    exact ⟨rfl, rfl⟩
  obtain ⟨hstep, hlistens⟩ := hstart
  obtain ⟨hfs, howned₂⟩ := hlistens.run_project hpost hreadable₁ howned₁
  have hrun : Run Parallel.step .ready (fs₀ ++ .session (.initializeEngine symbols) ::
      post.flatMap (engineEvents conv uninit ex)) s.engine := hfs₀.append (.cons hstep hfs)
  have hallOwned : ∀ f ∈ fs₀ ++ .session (.initializeEngine symbols) ::
      post.flatMap (engineEvents conv uninit ex), f.OwnedBy owner := by
    intro f hf
    rcases List.mem_append.1 hf with hf | hf
    · exact howned₀ f hf
    · rcases List.mem_cons.1 hf with rfl | hf
      · trivial
      · exact howned₂ f hf
  have hbook := Parallel.orderBook_since hrun hallOwned hquiet hfs₀ hstopped hx fun mid symbols' rest t heq ht hx' => by
    obtain ⟨mid', rest', rfl, rfl⟩ := exists_initialize heq
    obtain ⟨t', hmid, -⟩ := hpost.split
    have hfs' := (hlistens.run_project hmid (fun e he => hreadable₁ e (List.mem_append_left _ he))
      fun e he => howned₁ e (List.mem_append_left _ he)).1
    rw [ht.functional (hfs₀.append (.cons hstep hfs'))]
    exact hlater mid' symbols' rest' t' rfl hmid hx'
  rw [callsOf_engineEvents x hreadable₁] at hbook
  obtain ⟨snapshot, hmem⟩ := hsnapshot
  obtain ⟨hfollows, hunc'⟩ := bookAfter_follows hunc hhonest (.inr ⟨snapshot, hmem⟩)
  exact ⟨_, hbook, hfollows.uncrossed hunc', hfollows⟩

section Example

def rationals : Conversions ℚ := ⟨fun s => (Feed.numbers.lookup s).map fun n => (n : ℚ), fun x => x.floor.toNat⟩

def touch : OrderBookSnapshot ℚ := ⟨"BTC-USD", [(100, 1)], [(101, 1)], 0⟩

/-- The book of the exchange. -/
def touchLevels : OrderBook ℚ := MarketDataEngine.ofLevels touch.bids touch.asks

/-- A snapshot on the first of two adapters, and the steps of its callback. -/
def touchWired : List (Event Bool ℚ) :=
  [.adapter false (.connect (.opens none)), .adapter true (.connect .tcpFails),
    .adapter false (.readCompletes
      (.message 0 (some (Exchange.binance.documentOf (fun x => Feed.decimal x.floor) (.snapshot touch))))),
    .engine (.work false), .adapter true (.connect (.opens none)), .engine (.session (.enqueue false))]

def wiredExchange (thread : Bool) : Exchange := if thread then .kraken else .binance

theorem touchWired_documents : documents rationals wiredExchange "BTC-USD" touchWired = [.snapshot touch] := by
  decide +kernel

theorem touchWired_runs : ∃ s₁ s : Wiring Bool ℚ,
    step rationals Parallel.noUpdate wiredExchange ready (.engine (.session (.initializeEngine ["BTC-USD"]))) = some s₁ ∧
      Run (step rationals Parallel.noUpdate wiredExchange) s₁ touchWired s ∧ ∀ thread, s.engine.task thread = none := by
  have hsome : ((exec (step rationals Parallel.noUpdate wiredExchange) ready
      (.engine (.session (.initializeEngine ["BTC-USD"])) :: touchWired)).any fun s =>
        (s.engine.task false).isNone && (s.engine.task true).isNone) = true := by
    decide +kernel
  obtain ⟨s, hs, hquiet⟩ := (Option.any_eq_true ..).1 hsome
  obtain ⟨hfalse, htrue⟩ := (Bool.and_eq_true ..).mp hquiet
  cases run_iff_exec.2 hs with
  | cons hinit hrun =>
    refine ⟨_, s, hinit, hrun, fun thread => ?_⟩
    cases thread with
    | false => exact Option.isNone_iff_eq_none.1 hfalse
    | true => exact Option.isNone_iff_eq_none.1 htrue

/-- The asks of the snapshot are in the book. -/
theorem touchWired_followed : ∃ (s₁ s : Wiring Bool ℚ) (b : OrderBook ℚ),
    step rationals Parallel.noUpdate wiredExchange ready (.engine (.session (.initializeEngine ["BTC-USD"]))) = some s₁ ∧
      Run (step rationals Parallel.noUpdate wiredExchange) s₁ touchWired s ∧
      s.engine.getOrderBook "BTC-USD" = some b ∧ ∀ q : ℚ, b.asks[q]? = touchLevels.asks[q]? := by
  obtain ⟨s₁, s, hinit, hrun, hquiet⟩ := touchWired_runs
  have hreadable : ∀ e ∈ [] ++ touchWired, e.Readable rationals wiredExchange := by
    intro e he
    simp only [touchWired, List.nil_append, List.mem_cons, List.not_mem_nil, or_false] at he
    rcases he with rfl | rfl | rfl | rfl | rfl | rfl <;> trivial
  have howned : ∀ e ∈ [] ++ touchWired, e.Owned rationals wiredExchange fun _ => false := by
    intro e he
    simp only [touchWired, List.nil_append, List.mem_cons, List.not_mem_nil, or_false] at he
    rcases he with rfl | rfl | rfl | rfl | rfl | rfl
    · exact fun _ _ => rfl
    · exact nofun
    · exact fun _ _ => rfl
    · trivial
    · exact nofun
    · trivial
  have hhonest : HonestFrom touchLevels.view (documents rationals wiredExchange "BTC-USD" touchWired) := by
    rw [touchWired_documents]
    exact ⟨fun p v => ⟨getElem?_ofList, getElem?_ofList⟩, trivial⟩
  have hunc : touchLevels.view.Uncrossed := (OrderBook.uncrossed_iff _).1 (by decide +kernel)
  have hmem : .snapshot touch ∈ documents rationals wiredExchange "BTC-USD" touchWired := by
    rw [touchWired_documents]
    exact List.mem_cons_self
  obtain ⟨b, hb, -, hf⟩ := run_followed (.nil ready) hinit rfl (by simp) hrun
    (fun mid symbols rest t heq => by
      have hinit : Event.engine (.session (.initializeEngine symbols)) ∈ touchWired := heq ▸ by simp
      simp [touchWired] at hinit)
    hreadable howned hquiet hunc hhonest ⟨_, hmem⟩
  rw [touchWired_documents] at hf
  exact ⟨s₁, s, b, hinit, hrun, hb, hf.asks⟩

end Example

end Wiring

end CryptoHft
