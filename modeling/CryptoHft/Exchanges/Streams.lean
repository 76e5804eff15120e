import CryptoHft.Exchanges.Exchange
import CryptoHft.Lib.SetUpdates

/-!
# The streams that are active at the exchange

An exchange reads every message by one schema, the one of the adapter's subscription: a field with the verb, the
channel, and the symbols. By this schema the unsubscriptions of Binance name the streams to end; those of Coinbase and
Kraken lack fields and say nothing.

So the streams active at Binance are the ones that the calls of `subscribe` and `unsubscribe` leave. At Coinbase and
Kraken they are, exactly when what is unsubscribed is subscribed again later (`streams_iff`).
-/

namespace CryptoHft

open SetUpdates

/-- A channel and a symbol. -/
abbrev Stream := String × String

/-! ## Schemas -/

/-- How an exchange reads a message: the verb in a field, and the streams that the other fields name. -/
structure Schema where
  verbField : String
  subscribe : String
  unsubscribe : String
  streams : Json → Option (List Stream)

def Schema.update (schema : Schema) (message : Json) : Option (Update Stream) := do
  let verb ← (← message.lookup schema.verbField).asString
  let streams ← schema.streams message
  if verb = schema.subscribe then some (.add streams)
  else if verb = schema.unsubscribe then some (.remove streams)
  else none

namespace CoinbaseAdapter

def schema : Schema where
  verbField := "type"
  subscribe := "subscribe"
  unsubscribe := "unsubscribe"
  streams message := do
    let symbols ← (← message.lookup "product_ids").asStrings
    let channel ← (← message.lookup "channel").asString
    return symbols.map (channel, ·)

end CoinbaseAdapter

namespace KrakenAdapter

def schema : Schema where
  verbField := "event"
  subscribe := "subscribe"
  unsubscribe := "unsubscribe"
  streams message := do
    let symbols ← (← message.lookup "pair").asStrings
    let channel ← (← (← message.lookup "subscription").lookup "name").asString
    return symbols.map (channel, ·)

end KrakenAdapter

namespace BinanceAdapter

/-- The symbol in the name of a stream. -/
def symbolOf (streamName : String) : Option String :=
  if "@depth@100ms".toList <:+ streamName.toList then
    some (String.ofList (streamName.toList.take (streamName.length - "@depth@100ms".length)))
  else none

def schema : Schema where
  verbField := "method"
  subscribe := "SUBSCRIBE"
  unsubscribe := "UNSUBSCRIBE"
  streams message := do
    let params ← (← message.lookup "params").asStrings
    return (params.filterMap symbolOf).map ("depth@100ms", ·)

theorem symbolOf_append (symbol : String) : symbolOf (symbol ++ "@depth@100ms") = some symbol := by
  have hsuffix : "@depth@100ms".toList <:+ (symbol ++ "@depth@100ms").toList := by
    rw [String.toList_append]
    exact List.suffix_append _ _
  rw [symbolOf, if_pos hsuffix, String.length_append, Nat.add_sub_cancel, String.toList_append, ← String.length_toList,
    List.take_left, String.ofList_toList]

theorem streams_streamNames {message : Json} {symbols : List String}
    (h : message.lookup "params" = some (streamNames symbols)) :
    schema.streams message = some (symbols.map ("depth@100ms", ·)) := by
  have hnames : streamNames symbols = .array ((symbols.map (· ++ "@depth@100ms")).map .string) := by
    rw [streamNames, List.map_map]
    rfl
  have hsymbols : (symbols.map (· ++ "@depth@100ms")).filterMap symbolOf = symbols := by
    have hid : symbolOf ∘ (· ++ "@depth@100ms") = some := funext symbolOf_append
    rw [List.filterMap_map, hid, List.filterMap_some]
  rw [hnames] at h
  simp only [schema, h, Json.asStrings_map, Option.bind_eq_bind, Option.bind_some, hsymbols, Option.pure_def]

end BinanceAdapter

namespace Exchange

variable {D : Type}

def schema : Exchange → Schema
  | coinbase => CoinbaseAdapter.schema
  | kraken => KrakenAdapter.schema
  | binance => BinanceAdapter.schema

/-- The channel that a subscription names. -/
def channel : Exchange → String
  | coinbase => "level2"
  | kraken => "book"
  | binance => "depth@100ms"

def streamsOf (ex : Exchange) (symbols : List String) : List Stream := symbols.map (ex.channel, ·)

/-- The streams active after the messages. -/
def active (ex : Exchange) (written : List Json) : Finset Stream :=
  (written.filterMap ex.schema.update).foldl apply ∅

theorem update_subscribeMsg (ex : Exchange) (symbols : List String) :
    ex.schema.update (ex.subscribeMsg symbols) = some (.add (ex.streamsOf symbols)) := by
  cases ex with
  | coinbase =>
    have hstreams : CoinbaseAdapter.schema.streams (CoinbaseAdapter.subscribeMsg symbols) =
        some (symbols.map ("level2", ·)) := by
      have hids : (CoinbaseAdapter.subscribeMsg symbols).lookup "product_ids" = some (.array (symbols.map .string)) :=
        rfl
      have hchannel : (CoinbaseAdapter.subscribeMsg symbols).lookup "channel" = some (.string "level2") := rfl
      simp only [CoinbaseAdapter.schema, hids, hchannel, Json.asStrings_map, Json.asString, Option.bind_eq_bind,
        Option.bind_some, Option.pure_def]
    rw [Schema.update, schema, subscribeMsg, hstreams]
    rfl
  | kraken =>
    have hstreams : KrakenAdapter.schema.streams (KrakenAdapter.subscribeMsg symbols) =
        some (symbols.map ("book", ·)) := by
      have hpair : (KrakenAdapter.subscribeMsg symbols).lookup "pair" = some (.array (symbols.map .string)) := rfl
      have hsub : (KrakenAdapter.subscribeMsg symbols).lookup "subscription" =
          some (.object [("name", .string "book")]) := rfl
      have hname : (Json.object [("name", .string "book")]).lookup "name" = some (.string "book") := rfl
      simp only [KrakenAdapter.schema, hpair, hsub, hname, Json.asStrings_map, Json.asString, Option.bind_eq_bind,
        Option.bind_some, Option.pure_def]
    rw [Schema.update, schema, subscribeMsg, hstreams]
    rfl
  | binance =>
    have hstreams : BinanceAdapter.schema.streams (BinanceAdapter.subscribeMsg symbols) =
        some (symbols.map ("depth@100ms", ·)) := BinanceAdapter.streams_streamNames rfl
    rw [Schema.update, schema, subscribeMsg, hstreams]
    rfl

/-- What an unsubscription says to the exchange. -/
theorem update_unsubscribeMsg (ex : Exchange) (symbols : List String) :
    ex.schema.update (ex.unsubscribeMsg symbols) =
      if ex = .binance then some (.remove (ex.streamsOf symbols)) else none := by
  cases ex with
  | coinbase => rfl
  | kraken =>
    have hstreams : KrakenAdapter.schema.streams (KrakenAdapter.unsubscribeMsg symbols) = none := by
      have hpair : (KrakenAdapter.unsubscribeMsg symbols).lookup "pair" = some (.array (symbols.map .string)) := rfl
      have hsub : (KrakenAdapter.unsubscribeMsg symbols).lookup "subscription" = none := rfl
      simp only [KrakenAdapter.schema, hpair, hsub, Json.asStrings_map, Option.bind_eq_bind, Option.bind_some,
        Option.bind_none]
    rw [Schema.update, schema, unsubscribeMsg, hstreams]
    rfl
  | binance =>
    have hstreams : BinanceAdapter.schema.streams (BinanceAdapter.unsubscribeMsg symbols) =
        some (symbols.map ("depth@100ms", ·)) := BinanceAdapter.streams_streamNames rfl
    rw [Schema.update, schema, unsubscribeMsg, hstreams]
    rfl

end Exchange

/-! ## Calls -/

inductive StreamCall
  | subscribe (symbols : List String)
  | unsubscribe (symbols : List String)

namespace StreamCall

variable {D : Type}

def run (ex : Exchange) (s : Adapter D) : StreamCall → Adapter D
  | subscribe symbols => (ex.subscribe symbols s).1
  | unsubscribe symbols => (ex.unsubscribe symbols s).1

/-- The message that the call sends. -/
def message (ex : Exchange) : StreamCall → Json
  | subscribe symbols => ex.subscribeMsg symbols
  | unsubscribe symbols => ex.unsubscribeMsg symbols

/-- What the call is to do to the active streams. -/
def update (ex : Exchange) : StreamCall → Update Stream
  | subscribe symbols => .add (ex.streamsOf symbols)
  | unsubscribe symbols => .remove (ex.streamsOf symbols)

/-- On a connected adapter the calls send their messages, in order. -/
theorem foldl_run {ex : Exchange} {s : Adapter D} (h : s.connected = true) (calls : List StreamCall) :
    (calls.foldl (run ex) s).written = s.written ++ calls.map (message ex) := by
  induction calls generalizing s with
  | nil => rw [List.foldl_nil, List.map_nil, List.append_nil]
  | cons call calls ih =>
    have hrequest : (s.request (call.message ex)).1 = s.doWrite (call.message ex) := by
      rw [Adapter.request, if_pos h]
    have hrun : run ex s call = s.doWrite (call.message ex) := by
      rw [← hrequest]
      cases call <;> cases ex <;> rfl
    rw [List.foldl_cons, ih (by rw [hrun]; exact h), hrun, Adapter.doWrite, List.map_cons, List.append_assoc]
    rfl

/-- The updates that the exchange reads from the messages of the calls. -/
theorem foldl_apply_messages (ex : Exchange) (calls : List StreamCall) (streams : Finset Stream) :
    ((calls.map (message ex)).filterMap ex.schema.update).foldl apply streams =
      if ex = .binance then (calls.map (update ex)).foldl apply streams
      else (calls.map (update ex)).foldl applyAdds streams := by
  induction calls generalizing streams with
  | nil => simp
  | cons call calls ih =>
    cases call with
    | subscribe symbols =>
      rw [List.map_cons, message, List.filterMap_cons_some (ex.update_subscribeMsg symbols), List.foldl_cons, ih]
      rfl
    | unsubscribe symbols =>
      have hread := ex.update_unsubscribeMsg symbols
      by_cases hb : ex = .binance
      · rw [if_pos hb] at hread
        rw [List.map_cons, message, List.filterMap_cons_some hread, List.foldl_cons, ih, if_pos hb, if_pos hb]
        rfl
      · rw [if_neg hb] at hread
        rw [List.map_cons, message, List.filterMap_cons_none hread, ih, if_neg hb, if_neg hb]
        rfl

end StreamCall

open StreamCall

/-- **The active streams** are those that the calls leave, exactly where an unsubscription says which streams to end or
what it is about is subscribed again. -/
theorem streams_iff {D : Type} {ex : Exchange} {s : Adapter D} (h : s.connected = true) (calls : List StreamCall) :
    ex.active (calls.foldl (run ex) s).written = (calls.map (update ex)).foldl apply (ex.active s.written) ↔
      ex = .binance ∨ ReAdded (calls.map (update ex)) (ex.active s.written) := by
  have hactive : ex.active (calls.foldl (run ex) s).written =
      ((calls.map (message ex)).filterMap ex.schema.update).foldl apply (ex.active s.written) := by
    rw [foldl_run h, Exchange.active, List.filterMap_append, List.foldl_append]
    rfl
  rw [hactive, foldl_apply_messages]
  by_cases hb : ex = .binance
  · rw [if_pos hb]
    exact iff_of_true rfl (.inl hb)
  · rw [if_neg hb, foldl_applyAdds_eq_iff]
    exact (or_iff_right hb).symm

section Example

def connectedCoinbase : Adapter ℤ := (CoinbaseAdapter.connect .user (.opens (some "token")) Adapter.constructed).1

/-- Ended, and subscribed again. -/
theorem resubscribed_streams :
    Exchange.coinbase.active
        ([subscribe ["BTC-USD"], .unsubscribe ["BTC-USD"], .subscribe ["ETH-USD", "BTC-USD"]].foldl (run .coinbase)
          connectedCoinbase).written =
      ([subscribe ["BTC-USD"], .unsubscribe ["BTC-USD"], .subscribe ["ETH-USD", "BTC-USD"]].map
        (update .coinbase)).foldl apply (Exchange.coinbase.active connectedCoinbase.written) := by
  refine (streams_iff rfl _).2 (.inr ?_)
  rw [List.map_cons, List.map_cons, List.map_cons, List.map_nil, reAdded_cons, reAdded_cons, reAdded_cons]
  refine ⟨?_, ?_, ?_, reAdded_nil⟩
  · intro xs hu
    cases hu
  · intro xs hu x hx _
    cases hu
    exact ⟨_, List.mem_cons_self, List.mem_cons_of_mem _ hx⟩
  · intro xs hu
    cases hu

/-- The unsubscription names no stream. -/
theorem unsubscribed_still_active :
    Exchange.coinbase.active ([subscribe ["BTC-USD"], .unsubscribe ["BTC-USD"]].foldl (run .coinbase)
        connectedCoinbase).written = {("level2", "BTC-USD")} ∧
      ([subscribe ["BTC-USD"], .unsubscribe ["BTC-USD"]].map (update .coinbase)).foldl apply
        (Exchange.coinbase.active connectedCoinbase.written) = ∅ := by
  refine ⟨?_, ?_⟩ <;> decide

end Example

end CryptoHft
