import CryptoHft.Core.Replica
import CryptoHft.Exchanges.Wire

/-!
# From documents to books

An adapter wired to an engine, over the whole life of the adapter: the user connects, subscribes and disconnects, the
network fails or delivers documents, and every call of a callback is handled by the engine.

* Nothing but the documents reaches a book: the engine is the one that handles the events of the documents received, one
  call each, in order (`run_engine`).
* If the documents are readable, and what they hold about a symbol are messages of an exchange, then from a snapshot on
  the book of the symbol follows the book of the exchange (`documents_followed`).
-/

namespace CryptoHft

open Machine OrderedMap

variable {T D : Type} [LinearOrder D] [Zero D]

/-! ## Messages of one exchange -/

section Messages

/-- The exchange's book after the messages. -/
def announcedAll (l : Ladder D D) (evs : List (MarketEvent D)) : Ladder D D := evs.foldl (fun l ev => announced ev l) l

def HonestFrom : Ladder D D → List (MarketEvent D) → Prop
  | _, [] => True
  | l, ev :: evs => Honest l ev ∧ HonestFrom (announced ev l) evs

/-- The book that the messages leave. -/
def bookAfter (b : OrderBook D) (evs : List (MarketEvent D)) : OrderBook D := evs.foldl MarketEvent.book b

variable {b : OrderBook D} {l : Ladder D D} {ev : MarketEvent D} {evs : List (MarketEvent D)}

/-- One message. -/
theorem book_follows (hf : Follows b l ∨ ∃ snapshot, ev = .snapshot snapshot) (hl : l.Uncrossed) (h : Honest l ev) :
    Follows (ev.book b) (announced ev l) := by
  cases ev with
  | snapshot snapshot => exact follows_of_eq (view_installSnapshot b h)
  | delta d =>
    rcases hf with hf | ⟨_, he⟩
    · exact hf.applyDelta hl h
    · cases he

/-- A book that follows the exchange's keeps following it; any other one does from the first snapshot on. -/
theorem bookAfter_follows (hl : l.Uncrossed) (h : HonestFrom l evs)
    (hf : Follows b l ∨ ∃ snapshot, .snapshot snapshot ∈ evs) : Follows (bookAfter b evs) (announcedAll l evs) ∧
      (announcedAll l evs).Uncrossed := by
  induction evs generalizing b l with
  | nil =>
    rcases hf with hf | ⟨_, hm⟩
    · exact ⟨hf, hl⟩
    · cases hm
  | cons ev evs ih =>
    refine ih (announced_uncrossed hl h.1) h.2 ?_
    rcases hf with hf | ⟨snapshot, hm⟩
    · exact .inl (book_follows (.inl hf) hl h.1)
    · rcases List.mem_cons.1 hm with rfl | hm
      · exact .inl (book_follows (.inr ⟨snapshot, rfl⟩) hl h.1)
      · exact .inr ⟨snapshot, hm⟩

end Messages

/-! ## The wired adapter -/

namespace Feed

open Connection

variable (conv : Conversions D) (uninit : MarketUpdate D) (thread : T) (ex : Exchange)

/-- A step of the adapter, whose calls run the callbacks of the engine. -/
def step (sys : MarketDataEngine T D × Adapter D) (e : Event) : Option (MarketDataEngine T D × Adapter D) :=
  (Connection.step conv ex sys.2 e).map fun s =>
    ((s.calls.drop sys.2.calls.length).foldl (MarketDataEngine.callback uninit thread) sys.1, s)

omit [LinearOrder D] [Zero D] in
/-- The event that the adapter takes from the document it receives. -/
def received : Event → Option (MarketEvent D)
  | .readCompletes (.message now doc) => (ex.verdict conv now doc).event
  | _ => none

omit [LinearOrder D] [Zero D] in
/-- What the document holds that the adapter receives. -/
def held : Event → List (MarketEvent D)
  | .readCompletes (.message now (some doc)) => ex.holds conv now doc
  | _ => []

omit [LinearOrder D] [Zero D] in
/-- The document that the adapter receives is readable. -/
def Readable : Event → Prop
  | .readCompletes (.message _ (some doc)) => ex.Readable conv doc
  | _ => True

variable {conv uninit thread ex} {s s' : Adapter D} {sys sys' : MarketDataEngine T D × Adapter D}

omit [LinearOrder D] [Zero D] in
/-- A listening adapter calls back for every event received. -/
theorem delivers_eq (hl : Listening s) (e : Event) : delivers conv ex s e = (received conv ex e).toList := by
  cases e with
  | readCompletes completion =>
    cases completion with
    | readError attempt => rfl
    | message now doc => exact delivers_message hl now doc
  | _ => rfl

omit [LinearOrder D] [Zero D] in
theorem received_eq_held {e : Event} (h : Readable conv ex e) : (received conv ex e).toList = held conv ex e := by
  cases e with
  | readCompletes completion =>
    cases completion with
    | readError attempt => rfl
    | message now doc =>
      cases doc with
      | none => cases ex <;> rfl
      | some doc => exact event_eq_holds h
  | _ => rfl

omit [LinearOrder D] [Zero D] in
theorem filterMap_received {es : List Event} (h : ∀ e ∈ es, Readable conv ex e) :
    es.filterMap (received conv ex) = es.flatMap (held conv ex) := by
  induction es with
  | nil => rfl
  | cons e es ih =>
    obtain ⟨he, hes⟩ := List.forall_mem_cons.1 h
    rw [List.flatMap_cons, ← ih hes, ← received_eq_held he]
    cases hr : received conv ex e with
    | none => rw [List.filterMap_cons_none hr, Option.toList_none, List.nil_append]
    | some ev => rw [List.filterMap_cons_some hr, Option.toList_some, List.singleton_append]

theorem step_eq {e : Event} (hl : Listening sys.2) (h : step conv uninit thread ex sys e = some sys') :
    Listening sys'.2 ∧
      sys'.1 = (received conv ex e).toList.foldl (MarketDataEngine.callback uninit thread) sys.1 := by
  obtain ⟨s, hs, rfl⟩ := Option.map_eq_some_iff.1 h
  refine ⟨step_listening hl hs, ?_⟩
  rw [step_calls hs, List.drop_left, delivers_eq hl]

/-- **The engine of a wired adapter** handles the events of the documents received, each once and in order, and nothing
else. -/
theorem run_engine {es : List Event} (h : Run (step conv uninit thread ex) sys es sys') (hl : Listening sys.2) :
    sys'.1 = (es.filterMap (received conv ex)).foldl (MarketDataEngine.callback uninit thread) sys.1 := by
  induction h with
  | nil => rfl
  | @cons sys₁ sys₂ sys₃ e es hs _ ih =>
    obtain ⟨hl', he⟩ := step_eq hl hs
    rw [ih hl', he]
    cases hr : received conv ex e with
    | none => rw [List.filterMap_cons_none hr]; rfl
    | some ev => rw [List.filterMap_cons_some hr]; rfl

theorem orderBooks_foldl_callback (evs : List (MarketEvent D)) (e : MarketDataEngine T D) (x : String) :
    (evs.foldl (MarketDataEngine.callback uninit thread) e).orderBooks x =
      (e.orderBooks x).map fun b => bookAfter b (evs.filter fun ev => ev.symbol = x) := by
  induction evs generalizing e with
  | nil => exact Option.map_id'.symm
  | cons ev evs ih =>
    rw [List.foldl_cons, ih, MarketDataEngine.callback_orderBooks]
    by_cases hx : ev.symbol = x
    · simp [hx, bookAfter, Option.map_map, Function.comp_def]
    · simp [hx, Ne.symm hx, bookAfter]

/-- **Documents are followed**: if the documents received are readable, and what they hold about a symbol are messages of
its exchange, one of them a snapshot, then the book of the symbol has the asks of the exchange's book after the messages,
and only bids of it. -/
theorem documents_followed {es : List Event} (h : Run (step conv uninit thread ex) sys es sys') (hl : Listening sys.2)
    {x : String} {l : Ladder D D} (hknown : sys.1.getOrderBook x ≠ none) (hreadable : ∀ e ∈ es, Readable conv ex e)
    (hunc : l.Uncrossed) (hhonest : HonestFrom l ((es.flatMap (held conv ex)).filter fun ev => ev.symbol = x))
    (hsnapshot : ∃ snapshot, .snapshot snapshot ∈ es.flatMap (held conv ex) ∧ snapshot.symbol = x) :
    ∃ b, sys'.1.getOrderBook x = some b ∧ b.Uncrossed ∧
      Follows b (announcedAll l ((es.flatMap (held conv ex)).filter fun ev => ev.symbol = x)) := by
  rw [← filterMap_received hreadable] at hhonest hsnapshot ⊢
  obtain ⟨b, hb⟩ := Option.ne_none_iff_exists'.1 hknown
  obtain ⟨snapshot, hmem, hx⟩ := hsnapshot
  have hmem' : .snapshot snapshot ∈ (es.filterMap (received conv ex)).filter fun ev => ev.symbol = x :=
    List.mem_filter.2 ⟨hmem, decide_eq_true hx⟩
  obtain ⟨hfollows, hunc'⟩ := bookAfter_follows (b := b) hunc hhonest (.inr ⟨snapshot, hmem'⟩)
  refine ⟨_, ?_, hfollows.uncrossed hunc', hfollows⟩
  have hengine := congrArg (fun e => e.orderBooks x) (run_engine h hl)
  rw [orderBooks_foldl_callback] at hengine
  have hbook : sys.1.orderBooks x = some b := hb
  rw [hbook] at hengine
  exact hengine

section Example

open MarketDataEngine (touchBook touchUp)
open Replica (touchSnapshot)

def numbers : List (String × ℤ) := [("0", 0), ("1", 1), ("2", 2), ("100", 100), ("101", 101), ("102", 102)]

def decimals : Conversions ℤ := ⟨fun s => numbers.lookup s, fun x => x.floor.toNat⟩

def decimal (x : ℤ) : String := ((numbers.find? fun n => n.2 = x).map Prod.fst).getD ""

/-- The touch of Binance moves up, after a snapshot. -/
def touchFeed : List Event :=
  [.connect (.opens none),
    .readCompletes (.message 0 (some (Exchange.binance.documentOf decimal (.snapshot touchSnapshot)))),
    .readCompletes (.message 0 (some (Exchange.binance.documentOf decimal (.delta touchUp))))]

def touchWired : MarketDataEngine ℕ ℤ × Adapter ℤ :=
  (MarketDataEngine.constructed.initializeEngine ["BTC-USD"],
    Adapter.constructed.registerOrderBookCallback.registerOrderBookDeltaCallback)

theorem touchFeed_received :
    touchFeed.filterMap (received decimals .binance) = [.snapshot touchSnapshot, .delta touchUp] := by
  decide +kernel

theorem touchFeed_readable : ∀ e ∈ touchFeed, Readable decimals .binance e := by
  intro e he
  simp only [touchFeed, List.mem_cons, List.not_mem_nil, or_false] at he
  rcases he with rfl | rfl | rfl <;> trivial

theorem touchFeed_held : touchFeed.flatMap (held decimals .binance) = [.snapshot touchSnapshot, .delta touchUp] := by
  rw [← filterMap_received touchFeed_readable, touchFeed_received]

theorem touchFeed_runs : ∃ sys : MarketDataEngine ℕ ℤ × Adapter ℤ,
    Run (step decimals Replica.noUpdate 0 .binance) touchWired touchFeed sys := by
  have hsome : (exec (step decimals Replica.noUpdate 0 .binance) touchWired touchFeed).isSome = true := by
    decide +kernel
  obtain ⟨sys, hs⟩ := Option.isSome_iff_exists.1 hsome
  exact ⟨sys, run_iff_exec.2 hs⟩

theorem touchFeed_engine : ∃ sys : MarketDataEngine ℕ ℤ × Adapter ℤ,
    Run (step decimals Replica.noUpdate 0 .binance) touchWired touchFeed sys ∧
      sys.1 = [.snapshot touchSnapshot, .delta touchUp].foldl (MarketDataEngine.callback Replica.noUpdate 0)
        touchWired.1 := by
  obtain ⟨sys, h⟩ := touchFeed_runs
  have hengine := run_engine h ⟨rfl, rfl⟩
  rw [touchFeed_received] at hengine
  exact ⟨sys, h, hengine⟩

theorem touchFeed_followed : ∃ (sys : MarketDataEngine ℕ ℤ × Adapter ℤ) (b : OrderBook ℤ),
    Run (step decimals Replica.noUpdate 0 .binance) touchWired touchFeed sys ∧
      sys.1.getOrderBook "BTC-USD" = some b ∧
      Follows b (announcedAll touchBook.view [.snapshot touchSnapshot, .delta touchUp]) := by
  obtain ⟨sys, h⟩ := touchFeed_runs
  have hheld : (touchFeed.flatMap (held decimals .binance)).filter (fun ev => ev.symbol = "BTC-USD") =
      [.snapshot touchSnapshot, .delta touchUp] := by
    rw [touchFeed_held]
    decide
  have hhonest : HonestFrom touchBook.view [.snapshot touchSnapshot, .delta touchUp] := by
    refine ⟨fun p v => ⟨getElem?_ofList, getElem?_ofList⟩, ?_, trivial⟩
    have hunc : (MarketDataEngine.plain touchBook touchUp).Uncrossed := by decide
    rw [OrderBook.uncrossed_iff, view_plain] at hunc
    exact hunc
  rw [← hheld] at hhonest
  obtain ⟨b, hb, -, hf⟩ := documents_followed h ⟨rfl, rfl⟩ (by decide) touchFeed_readable
    ((OrderBook.uncrossed_iff touchBook).1 (by decide)) hhonest
    ⟨touchSnapshot, by rw [touchFeed_held]; exact List.mem_cons_self, rfl⟩
  rw [hheld] at hf
  exact ⟨sys, b, h, hb, hf⟩

end Example

end Feed

end CryptoHft
