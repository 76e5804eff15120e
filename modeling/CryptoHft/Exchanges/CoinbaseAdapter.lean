import CryptoHft.Exchanges.Adapter

/-!
# The Coinbase adapter

Coinbase asks for an authentication message on every connection. `handleSnapshotMessage` and `handleL2updateMessage`
read a document through the `const` subscripts and hand the result to a callback; `onMessage` dispatches on the field
`type`, and returns before it reads again for most of the types.
-/

namespace CryptoHft

open Outcome

namespace CoinbaseAdapter

variable {D : Type} (conv : Conversions D)

/-! ## Messages sent -/

def authMsg (token : String) : Json := .object [("type", .string "authenticate"), ("token", .string token)]

def subscribeMsg (symbols : List String) : Json :=
  .object [("type", .string "subscribe"), ("product_ids", .array (symbols.map .string)), ("channel", .string "level2")]

def unsubscribeMsg (symbols : List String) : Json :=
  .object [("type", .string "unsubscribe"),
    ("channels", .array [.object [("name", .string "level2"), ("product_ids", .array (symbols.map .string))]])]

def connect (caller : Caller) : Attempt → Adapter D → Adapter D × Bool :=
  Adapter.connect caller fun jwt s => jwt.map fun token => s.doWrite (authMsg token)

def subscribe (symbols : List String) : Adapter D → Adapter D × Bool := Adapter.request (subscribeMsg symbols)

def unsubscribe (symbols : List String) : Adapter D → Adapter D × Bool := Adapter.request (unsubscribeMsg symbols)

/-! ## Messages received -/

def readSnapshot (now : Int) (data : Json) : Outcome (OrderBookSnapshot D) := do
  let symbol ← (← data.subscriptKey "product_id").getString
  let bids ← readLevels conv (← data.subscriptKey "bids")
  let asks ← readLevels conv (← data.subscriptKey "asks")
  return { symbol, timestamp := now, bids, asks }

/-- One turn of the loop over the changes: price and size first, the side last. -/
def readChange (change : Json) : Outcome (Json × (D × D)) := do
  let level ← readLevel conv 1 change
  let side ← change.subscriptIndex 0
  return (side, level)

def readL2update (now : Int) (data : Json) : Outcome (OrderBookDelta D) := do
  let symbol ← (← data.subscriptKey "product_id").getString
  let changes ← each (readChange conv) (← data.subscriptKey "changes").items
  return {
    symbol
    timestamp := now
    bidUpdates := (changes.filter fun change => change.1.equalsString "buy").map Prod.snd
    askUpdates := (changes.filter fun change => change.1.equalsString "sell").map Prod.snd }

def handleSnapshotMessage (now : Int) (data : Json) : Adapter D → Outcome (Adapter D) :=
  Adapter.handle (readSnapshot conv now data) Adapter.callOrderBook

def handleL2updateMessage (now : Int) (data : Json) : Adapter D → Outcome (Adapter D) :=
  Adapter.handle (readL2update conv now data) Adapter.callOrderBookDelta

/-- `if (data.contains(key)) log(data[key].get<std::string>())`. -/
def logField (data : Json) (key : String) : Outcome Unit := do
  if data.contains key then
    let _ ← (← data.mutableKey key).getString
  return

/-- `data.contains("success") && data["success"].get<bool>()`. -/
def succeeded (data : Json) : Outcome Bool := do
  if data.contains "success" then
    (← data.mutableKey "success").getBool
  else
    return false

/-- The `try` block of `on_message`. -/
def messageBody (now : Int) (doc : Option Json) (s : Adapter D) : Outcome (Flow × Adapter D) := do
  let data ← parsed doc
  if data.contains "type" then
    let type ← (← data.mutableKey "type").getString
    if type = "error" then
      logField data "message"
      logField data "error"
      logField data "details"
      if data.contains "error" then
        if (← (← data.mutableKey "error").getString) = "authentication_failed" then
          return (.returned, s.disconnect .io)
      return (.returned, s)
    if type = "authenticate" then
      if ← succeeded data then
        return (.returned, { s with authenticated := true })
      else
        return (.returned, { s with authenticated := false }.disconnect .io)
    if type = "subscriptions" then
      return (.returned, s)
    if type = "snapshot" then
      return (.returned, ← handleSnapshotMessage conv now data s)
    if type = "l2update" then
      return (.returned, ← handleL2updateMessage conv now data s)
  return (.fallsThrough, s)

def onMessage : Completion → Adapter D → Outcome (Adapter D) :=
  Adapter.onMessage (connect .io) (messageBody conv)

end CoinbaseAdapter

end CryptoHft
