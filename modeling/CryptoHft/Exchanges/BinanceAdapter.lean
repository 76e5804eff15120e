import CryptoHft.Exchanges.Adapter

/-!
# The Binance adapter

Binance answers a subscription with a document that has the key `result` or `id`; every other document is a depth
update, a snapshot, or ignored.
-/

namespace CryptoHft

open Outcome

namespace BinanceAdapter

variable {D : Type} (conv : Conversions D)

/-! ## Messages sent -/

def streamNames (symbols : List String) : Json := .array (symbols.map fun symbol => .string (symbol ++ "@depth@100ms"))

def subscribeMsg (symbols : List String) : Json :=
  .object [("method", .string "SUBSCRIBE"), ("params", streamNames symbols), ("id", .number_integer 1)]

def unsubscribeMsg (symbols : List String) : Json :=
  .object [("method", .string "UNSUBSCRIBE"), ("params", streamNames symbols), ("id", .number_integer 1)]

def connect (caller : Caller) : Attempt → Adapter D → Adapter D × Bool := Adapter.connect caller fun _ s => some s

def subscribe (symbols : List String) : Adapter D → Adapter D × Bool := Adapter.request (subscribeMsg symbols)

def unsubscribe (symbols : List String) : Adapter D → Adapter D × Bool := Adapter.request (unsubscribeMsg symbols)

/-! ## Messages received -/

def readSnapshot (data : Json) : Outcome (OrderBookSnapshot D) := do
  let symbol ← (← data.subscriptKey "symbol").getString
  let timestamp ← conv.timestampOf (← data.subscriptKey "lastUpdateId")
  let bids ← readLevels conv (← data.subscriptKey "bids")
  let asks ← readLevels conv (← data.subscriptKey "asks")
  return { symbol, timestamp, bids, asks }

def readL2update (data : Json) : Outcome (OrderBookDelta D) := do
  let symbol ← (← data.subscriptKey "s").getString
  let timestamp ← conv.timestampOf (← data.subscriptKey "u")
  let bidUpdates ← readLevels conv (← data.subscriptKey "b")
  let askUpdates ← readLevels conv (← data.subscriptKey "a")
  return { symbol, timestamp, bidUpdates, askUpdates }

def handleSnapshotMessage (data : Json) : Adapter D → Outcome (Adapter D) :=
  Adapter.handle (readSnapshot conv data) Adapter.callOrderBook

def handleL2updateMessage (data : Json) : Adapter D → Outcome (Adapter D) :=
  Adapter.handle (readL2update conv data) Adapter.callOrderBookDelta

/-- `data.contains("e") && data["e"] == "depthUpdate"`. -/
def isDepthUpdate (data : Json) : Outcome Bool := do
  if data.contains "e" then
    return (← data.mutableKey "e").equalsString "depthUpdate"
  else
    return false

/-- The `try` block of `on_message`. -/
def messageBody (_now : Int) (doc : Option Json) (s : Adapter D) : Outcome (Flow × Adapter D) := do
  let data ← parsed doc
  if data.contains "result" || data.contains "id" then
    return (.returned, s)
  if ← isDepthUpdate data then
    return (.fallsThrough, ← handleL2updateMessage conv data s)
  else if data.contains "lastUpdateId" then
    return (.fallsThrough, ← handleSnapshotMessage conv data s)
  return (.fallsThrough, s)

def onMessage : Completion → Adapter D → Outcome (Adapter D) :=
  Adapter.onMessage (connect .io) (messageBody conv)

end BinanceAdapter

end CryptoHft
