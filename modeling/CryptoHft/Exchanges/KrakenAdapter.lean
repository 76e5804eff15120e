import CryptoHft.Exchanges.Adapter

/-!
# The Kraken adapter

A book message of Kraken is an array whose second element holds the levels. Its handlers test every key before they
read it, and give every snapshot and every update the same symbol.
-/

namespace CryptoHft

open Outcome

namespace KrakenAdapter

variable {D : Type} (conv : Conversions D)

/-! ## Messages sent -/

def subscribeMsg (symbols : List String) : Json :=
  .object [("event", .string "subscribe"), ("pair", .array (symbols.map .string)),
    ("subscription", .object [("name", .string "book")])]

def unsubscribeMsg (symbols : List String) : Json :=
  .object [("event", .string "unsubscribe"), ("pair", .array (symbols.map .string))]

def connect (caller : Caller) : Attempt → Adapter D → Adapter D × Bool := Adapter.connect caller fun _ s => some s

def subscribe (symbols : List String) : Adapter D → Adapter D × Bool := Adapter.request (subscribeMsg symbols)

def unsubscribe (symbols : List String) : Adapter D → Adapter D × Bool := Adapter.request (unsubscribeMsg symbols)

/-! ## Messages received -/

/-- `if (data.contains(key))`, the loop over the levels at `key`. -/
def readSide (data : Json) (key : String) : Outcome (List (D × D)) := do
  if data.contains key then
    readLevels conv (← data.subscriptKey key)
  else
    return []

/-- The symbol of every snapshot and update. -/
def symbol : String := "BTC/USD"

def readSnapshot (now : Int) (data : Json) : Outcome (OrderBookSnapshot D) := do
  let bids ← readSide conv data "bs"
  let asks ← readSide conv data "as"
  return { symbol, timestamp := now, bids, asks }

def readL2update (now : Int) (data : Json) : Outcome (OrderBookDelta D) := do
  let bidUpdates ← readSide conv data "b"
  let askUpdates ← readSide conv data "a"
  return { symbol, timestamp := now, bidUpdates, askUpdates }

def handleSnapshotMessage (now : Int) (data : Json) : Adapter D → Outcome (Adapter D) :=
  Adapter.handle (readSnapshot conv now data) Adapter.callOrderBook

def handleL2updateMessage (now : Int) (data : Json) : Adapter D → Outcome (Adapter D) :=
  Adapter.handle (readL2update conv now data) Adapter.callOrderBookDelta

/-- The `try` block of `on_message`. -/
def messageBody (now : Int) (doc : Option Json) (s : Adapter D) : Outcome (Flow × Adapter D) := do
  let data ← parsed doc
  if data.contains "event" then
    let event ← (← data.mutableKey "event").getString
    if event = "systemStatus" then
      return (.returned, s)
    if event = "subscriptionStatus" then
      return (.returned, s)
    if event = "error" then
      return (.returned, s)
  if data.isArrayOf 2 then
    let bookData ← data.mutableIndex 1
    if bookData.contains "bs" || bookData.contains "as" then
      return (.fallsThrough, ← handleSnapshotMessage conv now bookData s)
    else if bookData.contains "b" || bookData.contains "a" then
      return (.fallsThrough, ← handleL2updateMessage conv now bookData s)
  return (.fallsThrough, s)

def onMessage : Completion → Adapter D → Outcome (Adapter D) :=
  Adapter.onMessage (connect .io) (messageBody conv)

end KrakenAdapter

end CryptoHft
