import CryptoHft.Exchanges.IExchangeAdapter
import CryptoHft.Exchanges.Levels

/-!
# The state that the three adapters share

An adapter owns a WebSocket stream, an `io_context` and the thread that runs it; the constructor starts the thread, and
nothing restarts the context once it is stopped. Here are the parts that Coinbase, Kraken and Binance have in common:
connecting up to what is done after the handshakes, disconnecting, reading and writing.

What the network does is a parameter of the operations that meet it: an `Attempt` says how far a connect gets, a
`Completion` what an asynchronous read ends with.
-/

namespace CryptoHft

/-- How far the stream is open. A TCP connect that fails leaves its socket open. -/
inductive Transport
  | closed
  | opened
  | tcp
  | tls
  | websocket
deriving DecidableEq, Repr

/-- The thread that runs the `io_context`; a thread that has left `run` can still be joined. -/
inductive IoThread
  | running
  | finished
  | joined
deriving DecidableEq, Repr

structure Adapter (D : Type) where
  connected : Bool
  authenticated : Bool
  transport : Transport
  /-- The asynchronous reads outstanding. -/
  reads : Nat
  /-- The asynchronous writes outstanding. -/
  writes : Nat
  /-- The messages written on the current connection, oldest first. -/
  written : List Json
  /-- The `io_context` has been stopped. -/
  iocStopped : Bool
  ioThread : IoThread
  /-- Whether the stored callbacks are non-empty. -/
  orderBookCallback : Bool
  orderBookDeltaCallback : Bool
  /-- The calls of the callbacks, oldest first. -/
  calls : List (MarketEvent D)

/-- How a connect ends: at a step that fails, or with an open WebSocket and the token that the credentials give. -/
inductive Attempt
  | resolveFails
  | tcpFails
  | tlsFails
  | websocketFails
  | opens (jwt : Option String)

/-- How an asynchronous read ends: in an error, where the connect that may follow ends in its turn, or with a message,
read at a time, whose text is a document or does not parse. -/
inductive Completion
  | readError (reconnect : Attempt)
  | message (now : Int) (doc : Option Json)

/-- The thread that calls a method. -/
inductive Caller
  | user
  | io

/-- How the body of `on_message` is left. -/
inductive Flow
  | returned
  | fallsThrough

namespace Adapter

variable {D : Type}

def constructed : Adapter D :=
  { connected := false, authenticated := false, transport := .closed, reads := 0, writes := 0, written := [],
    iocStopped := false, ioThread := .running, orderBookCallback := false, orderBookDeltaCallback := false,
    calls := [] }

def registerOrderBookCallback (s : Adapter D) : Adapter D := { s with orderBookCallback := true }

def registerOrderBookDeltaCallback (s : Adapter D) : Adapter D := { s with orderBookDeltaCallback := true }

def doRead (s : Adapter D) : Adapter D := { s with reads := s.reads + 1 }

def doWrite (message : Json) (s : Adapter D) : Adapter D :=
  { s with writes := s.writes + 1, written := s.written ++ [message] }

/-- The context is stopped and its thread joined. The IO thread cannot join itself: the exception is caught. -/
def disconnect (caller : Caller) (s : Adapter D) : Adapter D :=
  if s.connected then
    { s with
      connected := false
      iocStopped := true
      ioThread :=
        match caller with
        | .user => .joined
        | .io => s.ioThread }
  else s

/-- `connect`, with what the exchange asks for between the handshakes and the first read: `none` is the exception that
makes `connect` disconnect and give up. -/
def connect (caller : Caller) (authenticate : Option String → Adapter D → Option (Adapter D)) (attempt : Attempt)
    (s : Adapter D) : Adapter D × Bool :=
  if s.connected then (s, true)
  else
    match attempt with
    | .resolveFails => (s, false)
    | .tcpFails => ({ s with transport := if s.transport = .closed then .opened else s.transport }, false)
    | .tlsFails => ({ s with transport := .tcp }, false)
    | .websocketFails => ({ s with transport := .tls }, false)
    | .opens jwt =>
      let s := { s with transport := .websocket, written := [] }
      match authenticate jwt s with
      | none => (s.disconnect caller, false)
      | some s => ({ s with connected := true }.doRead, true)

/-- `subscribe` and `unsubscribe`, with the message that they send. -/
def request (message : Json) (s : Adapter D) : Adapter D × Bool :=
  if s.connected then (s.doWrite message, true) else (s, false)

def callOrderBook (snapshot : OrderBookSnapshot D) (s : Adapter D) : Adapter D :=
  if s.orderBookCallback then { s with calls := s.calls ++ [.snapshot snapshot] } else s

def callOrderBookDelta (delta : OrderBookDelta D) (s : Adapter D) : Adapter D :=
  if s.orderBookDeltaCallback then { s with calls := s.calls ++ [.delta delta] } else s

open Outcome in
/-- A message handler: what it reads from the document goes to the callback, an exception is logged. -/
def handle {α : Type} (read : Outcome α) (call : α → Adapter D → Adapter D) (s : Adapter D) : Outcome (Adapter D) :=
  attempt (do return call (← read) s) (return s)

open Outcome in
/-- `on_message`, with the `connect` and the `try` block of the exchange. Nothing that can throw in a block follows a
change of the adapter, so an exception leaves the adapter as it was. -/
def onMessage (connect : Attempt → Adapter D → Adapter D × Bool)
    (body : Int → Option Json → Adapter D → Outcome (Flow × Adapter D)) :
    Completion → Adapter D → Outcome (Adapter D)
  | .readError reconnect, s => return if s.connected then (connect reconnect (s.disconnect .io)).1 else s
  | .message now doc, s => do
    match ← attempt (body now doc s) (return (.fallsThrough, s)) with
    | (.returned, s) => return s
    | (.fallsThrough, s) => return s.doRead

end Adapter

/-- `json::parse`, where the text does not parse. -/
def parsed : Option Json → Outcome Json
  | some data => .ok data
  | none => Outcome.throws

end CryptoHft
