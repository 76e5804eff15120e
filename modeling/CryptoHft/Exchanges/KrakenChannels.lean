import CryptoHft.Core.MarketDataEngine
import CryptoHft.Exchanges.Documents

/-!
# Kraken's book channels

Kraken sends the book messages of each pair on a channel of their own, named in the message. The adapter passes the first
payload of what it reads to the engine under one symbol, whatever the channel.

* `receive_respects`: a message on the channel of that symbol, with nothing after its first payload, is applied to the
  book of its pair and to no other; so is a message that holds nothing.
* `run_channels`: in a run of such messages the book of a pair is the result of the messages of its channel alone.
-/

namespace CryptoHft

open Machine Outcome
open Connection (Listening)

namespace KrakenAdapter

variable {T D : Type} [LinearOrder D] [Zero D]

/-- A book message: channel, payload, possibly further payloads, channel name and pair. -/
structure BookMessage where
  channelID : Nat
  payload : Json
  more : List Json
  channelName : String
  pair : String
  now : Int

namespace BookMessage

def doc (m : BookMessage) : Json :=
  .array (.number_unsigned m.channelID :: m.payload :: (m.more ++ [.string m.channelName, .string m.pair]))

variable (conv : Conversions D)

/-- What the message holds about its pair, payload by payload. -/
def holds (m : BookMessage) : List (MarketEvent D) := (m.payload :: m.more).filterMap (krakenHolds conv m.now m.pair)

/-- The message applied to a book. -/
def applyTo (m : BookMessage) (b : Option (OrderBook D)) : Option (OrderBook D) :=
  (m.holds conv).foldl (fun b ev => b.map fun b => ev.book b) b

/-- The first payload holds nothing or is on the channel of the one symbol, and the other payloads hold nothing. -/
def OnOwnChannel (m : BookMessage) : Prop :=
  (m.pair = symbol ∨ ¬ HoldsSomething conv m.payload) ∧ ∀ payload ∈ m.more, ¬ HoldsSomething conv payload

end BookMessage

/-- An adapter wired to an engine: both know the pairs, the callbacks are registered, and the adapter has connected and
subscribed. -/
def wired (pairs : List String) : MarketDataEngine T D × Adapter D :=
  (MarketDataEngine.constructed.initializeEngine pairs,
    (subscribe pairs
      (connect .user (.opens none)
        Adapter.constructed.registerOrderBookCallback.registerOrderBookDeltaCallback).1).1)

/-- The adapter receives a message, and its calls run the callbacks of the engine. -/
def receive (conv : Conversions D) (uninit : MarketUpdate D) (thread : T) (sys : MarketDataEngine T D × Adapter D)
    (m : BookMessage) : Option (MarketDataEngine T D × Adapter D) :=
  match Connection.step conv .kraken { sys.2 with calls := [] } (.readCompletes (.message m.now (some m.doc))) with
  | some s => some (s.calls.foldl (MarketDataEngine.callback uninit thread) sys.1, s)
  | none => none

variable {conv : Conversions D} {uninit : MarketUpdate D} {thread : T}

/-! ## One message -/

section Reads

omit [LinearOrder D] [Zero D]

theorem holds_string (now : Int) (pair text : String) : krakenHolds conv now pair (.string text) = none := rfl

/-- The content of the document is the content of the message. -/
theorem BookMessage.holds_doc (m : BookMessage) : Exchange.kraken.holds conv m.now m.doc = m.holds conv := by
  have hlast : (m.payload :: (m.more ++ [.string m.channelName, .string m.pair])).getLast? = some (.string m.pair) := by
    simp [List.getLast?_cons]
  simp only [Exchange.holds, BookMessage.doc, hlast, BookMessage.holds, List.filterMap_cons, List.filterMap_append,
    holds_string, List.filterMap_nil, List.append_nil]

theorem BookMessage.readable_doc {m : BookMessage} (h : m.OnOwnChannel conv) : Exchange.kraken.Readable conv m.doc := by
  intro channel payload more he
  cases he
  refine ⟨h.1.imp_left fun hp => by simp [hp], fun payload' hmem => ?_⟩
  rcases List.mem_append.1 hmem with hmem | hmem
  · exact h.2 payload' hmem
  · rintro ⟨now, pair, ev, hev⟩
    simp only [List.mem_cons, List.not_mem_nil, or_false] at hmem
    rcases hmem with rfl | rfl <;> cases hev

theorem symbol_of_krakenHolds {now : Int} {pair : String} {payload : Json} {ev : MarketEvent D}
    (h : krakenHolds conv now pair payload = some ev) : ev.symbol = pair := by
  unfold krakenHolds at h
  split at h
  · obtain ⟨snapshot, hs, rfl⟩ := Option.map_eq_some_iff.1 h
    simp only [krakenSnapshot, Option.bind_eq_bind, Option.bind_eq_some_iff, Option.pure_def, Option.some.injEq] at hs
    obtain ⟨_, -, _, -, rfl⟩ := hs
    rfl
  split at h
  · obtain ⟨delta, hd, rfl⟩ := Option.map_eq_some_iff.1 h
    simp only [krakenUpdate, Option.bind_eq_bind, Option.bind_eq_some_iff, Option.pure_def, Option.some.injEq] at hd
    obtain ⟨_, -, _, -, rfl⟩ := hd
    rfl
  · cases h

theorem BookMessage.symbol_of_holds {m : BookMessage} {ev : MarketEvent D} (h : ev ∈ m.holds conv) :
    ev.symbol = m.pair := by
  obtain ⟨payload, -, hp⟩ := List.mem_filterMap.1 h
  exact symbol_of_krakenHolds hp

end Reads

/-- The engine gets the event of the document. -/
theorem receive_eq {sys sys' : MarketDataEngine T D × Adapter D} {m : BookMessage} (hl : Listening sys.2)
    (h : receive conv uninit thread sys m = some sys') :
    Listening sys'.2 ∧ sys'.1 = (Exchange.kraken.verdict conv m.now (some m.doc)).event.toList.foldl
      (MarketDataEngine.callback uninit thread) sys.1 := by
  unfold receive at h
  split at h
  · next s hs =>
    cases h
    have hcleared : Listening ({ sys.2 with calls := [] } : Adapter D) := hl
    refine ⟨Connection.step_listening hcleared hs, ?_⟩
    rw [Connection.step_calls hs, Connection.delivers_message hcleared, List.nil_append]
  · cases h

/-- Events of one symbol change the book of that symbol, and no other. -/
theorem orderBooks_of_symbol {pair : String} {evs : List (MarketEvent D)} (h : ∀ ev ∈ evs, ev.symbol = pair)
    (e : MarketDataEngine T D) (x : String) :
    (evs.foldl (MarketDataEngine.callback uninit thread) e).orderBooks x =
      if pair = x then evs.foldl (fun b ev => b.map fun b => ev.book b) (e.orderBooks x) else e.orderBooks x := by
  induction evs generalizing e with
  | nil => simp
  | cons ev evs ih =>
    obtain ⟨hev, hevs⟩ := List.forall_mem_cons.1 h
    rw [List.foldl_cons, ih hevs, MarketDataEngine.callback_orderBooks, hev]
    by_cases hx : pair = x
    · rw [if_pos hx, if_pos hx, if_pos hx.symm, List.foldl_cons]
    · rw [if_neg hx, if_neg hx, if_neg (Ne.symm hx)]

/-- The message is applied to the book of its pair, and changes no other. -/
def RespectsChannel (conv : Conversions D) (m : BookMessage) (e e' : MarketDataEngine T D) : Prop :=
  ∀ x, e'.orderBooks x = if m.pair = x then m.applyTo conv (e.orderBooks x) else e.orderBooks x

theorem receive_respects {sys sys' : MarketDataEngine T D × Adapter D} {m : BookMessage} (hl : Listening sys.2)
    (hown : m.OnOwnChannel conv) (h : receive conv uninit thread sys m = some sys') :
    RespectsChannel conv m sys.1 sys'.1 := by
  intro x
  rw [(receive_eq hl h).2, event_eq_holds (BookMessage.readable_doc hown), BookMessage.holds_doc]
  exact orderBooks_of_symbol (fun _ => BookMessage.symbol_of_holds) sys.1 x

/-! ## Runs -/

omit [Zero D] in
theorem wired_listening (pairs : List String) : Listening (wired pairs : MarketDataEngine T D × Adapter D).2 :=
  ⟨rfl, rfl⟩

theorem run_listening {sys sys' : MarketDataEngine T D × Adapter D} {ms : List BookMessage} (hl : Listening sys.2)
    (h : Run (receive conv uninit thread) sys ms sys') : Listening sys'.2 :=
  h.invariant (I := fun sys => Listening sys.2) (fun _ _ _ hl hs => (receive_eq hl hs).1) hl

/-- The book of a pair is the result of its own messages. -/
theorem run_book {sys sys' : MarketDataEngine T D × Adapter D} {ms : List BookMessage} (hl : Listening sys.2)
    (h : Run (receive conv uninit thread) sys ms sys') (hown : ∀ m ∈ ms, m.OnOwnChannel conv) (x : String) :
    sys'.1.orderBooks x =
      (ms.filter fun m => m.pair = x).foldl (fun b m => m.applyTo conv b) (sys.1.orderBooks x) := by
  induction h with
  | nil => rfl
  | @cons sys₁ sys₂ sys₃ m ms hs _ ih =>
    rw [ih (receive_eq hl hs).1 fun m hm => hown m (List.mem_cons_of_mem _ hm),
      receive_respects hl (hown m List.mem_cons_self) hs x]
    by_cases hp : m.pair = x <;> simp [hp]

/-- **Channels.** In a run in which every message that holds something to apply is on the channel of the one symbol and
holds it in its first payload, each message is applied to the book of its own pair and to no other, and the final book of
every pair is a function of the messages of that pair. -/
theorem run_channels {pairs : List String} {ms : List BookMessage} {sys : MarketDataEngine T D × Adapter D}
    (h : Run (receive conv uninit thread) (wired pairs) ms sys) (hown : ∀ m ∈ ms, m.OnOwnChannel conv) :
    (∀ pre m post sys₁ sys₂, ms = pre ++ m :: post → Run (receive conv uninit thread) (wired pairs) pre sys₁ →
        receive conv uninit thread sys₁ m = some sys₂ → RespectsChannel conv m sys₁.1 sys₂.1) ∧
      ∀ x, sys.1.orderBooks x =
        (ms.filter fun m => m.pair = x).foldl (fun b m => m.applyTo conv b)
          ((MarketDataEngine.constructed.initializeEngine pairs : MarketDataEngine T D).orderBooks x) := by
  refine ⟨?_, run_book (wired_listening pairs) h hown⟩
  rintro pre m post sys₁ sys₂ rfl hpre hs
  exact receive_respects (run_listening (wired_listening pairs) hpre)
    (hown m (List.mem_append_right _ List.mem_cons_self)) hs

section Example

def level (price size : String) : Json := .array [.string price, .string size]

def prices : Conversions ℤ := ⟨fun s => [("100", 100), ("101", 101), ("1", 1)].lookup s, fun x => x.floor.toNat⟩

/-- A snapshot on the channel of a pair. -/
def snapshotOn (pair : String) : BookMessage :=
  ⟨336, .object [("as", .array [level "101" "1"]), ("bs", .array [level "100" "1"])], [], "book-10", pair, 0⟩

/-- A message with nothing to apply. -/
def emptyOn (pair : String) : BookMessage := ⟨337, .object [], [], "book-10", pair, 0⟩

/-- An update of both sides, in two payloads. -/
def bothSides : BookMessage :=
  ⟨336, .object [("a", .array [level "101" "1"])], [.object [("b", .array [level "100" "1"])]], "book-10", "BTC/USD", 0⟩

def noUpdate : MarketUpdate ℤ := ⟨"", 0, 0, 0, 0, 0, false⟩

theorem own_channel_applied : ∃ sys : MarketDataEngine ℕ ℤ × Adapter ℤ,
    Run (receive prices noUpdate 0) (wired ["BTC/USD", "ETH/USD"]) [emptyOn "ETH/USD", snapshotOn "BTC/USD"] sys ∧
      sys.1.orderBooks "BTC/USD" = (snapshotOn "BTC/USD").applyTo prices (some .empty) := by
  have hrun : ∃ sys : MarketDataEngine ℕ ℤ × Adapter ℤ,
      Run (receive prices noUpdate 0) (wired ["BTC/USD", "ETH/USD"]) [emptyOn "ETH/USD", snapshotOn "BTC/USD"] sys :=
    ⟨_, run_iff_exec.2 rfl⟩
  obtain ⟨sys, h⟩ := hrun
  have hown : ∀ m ∈ [emptyOn "ETH/USD", snapshotOn "BTC/USD"], m.OnOwnChannel prices := by
    intro m hm
    simp only [List.mem_cons, List.not_mem_nil, or_false] at hm
    rcases hm with rfl | rfl
    · refine ⟨.inr ?_, nofun⟩
      rintro ⟨_, _, _, hev⟩
      cases hev
    · exact ⟨.inl rfl, nofun⟩
  refine ⟨sys, h, ?_⟩
  rw [(run_channels h hown).2 "BTC/USD"]
  rfl

/-- A snapshot of another pair lands in the book of `BTC/USD`, and not in its own. Of an update in two payloads, only the
first is applied. -/
theorem other_channel_misapplied :
    (∃ sys : MarketDataEngine ℕ ℤ × Adapter ℤ,
      Run (receive prices noUpdate 0) (wired ["BTC/USD", "ETH/USD"]) [snapshotOn "ETH/USD"] sys ∧
        (wired ["BTC/USD", "ETH/USD"] : MarketDataEngine ℕ ℤ × Adapter ℤ).1.orderBooks "BTC/USD" = some .empty ∧
        sys.1.orderBooks "BTC/USD" ≠ some .empty ∧ sys.1.orderBooks "ETH/USD" = some .empty) ∧
    ∃ sys : MarketDataEngine ℕ ℤ × Adapter ℤ,
      Run (receive prices noUpdate 0) (wired ["BTC/USD", "ETH/USD"]) [bothSides] sys ∧
        sys.1.orderBooks "BTC/USD" ≠ bothSides.applyTo prices (some .empty) := by
  constructor
  · refine ⟨_, run_iff_exec.2 rfl, ?_, ?_, ?_⟩ <;> decide
  · refine ⟨_, run_iff_exec.2 rfl, ?_⟩
    decide

end Example

end KrakenAdapter

end CryptoHft
