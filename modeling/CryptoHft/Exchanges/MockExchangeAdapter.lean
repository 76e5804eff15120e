import CryptoHft.Exchanges.IExchangeAdapter

/-!
# The mock exchange

The adapter that the unit tests use: it keeps the orders in a map, and starts a thread for each order that reports it
as new and fills it, or finds it cancelled. Every method that touches the orders holds `orders_mutex_`, the thread from
its first report to its last, so each is one step here.
-/

namespace CryptoHft

variable {D : Type}

structure OrderState (D : Type) where
  request : OrderRequest D
  status : OrderStatus
  filledAmount : D
  fillPrice : D

structure MockExchangeAdapter (D : Type) where
  connected : Bool
  /-- Whether the stored execution callback is non-empty. -/
  executionCallback : Bool
  /-- The numbers that all adapters of the process have given to orders. -/
  orderCounter : Nat
  orders : String → Option (OrderState D)
  /-- The orders whose thread has not taken the mutex yet. -/
  threads : List String
  /-- The calls of the execution callback, oldest first. -/
  reports : List (OrderResponse D)

namespace MockExchangeAdapter

/-- An adapter with or without a callback, in a process where orders up to the number were submitted before. -/
def constructed (executionCallback : Bool) (orderCounter : Nat) : MockExchangeAdapter D :=
  ⟨false, executionCallback, orderCounter, fun _ => none, [], []⟩

def connect (s : MockExchangeAdapter D) : MockExchangeAdapter D := { s with connected := true }

def disconnect (s : MockExchangeAdapter D) : MockExchangeAdapter D := { s with connected := false }

def orderId (n : Nat) : String := "MOCK_" ++ toString n

def setOrder (orderId : String) (order : OrderState D) (s : MockExchangeAdapter D) : MockExchangeAdapter D :=
  { s with orders := Function.update s.orders orderId (some order) }

/-- `if (execution_callback_) execution_callback_(response)` -/
def report (response : OrderResponse D) (s : MockExchangeAdapter D) : MockExchangeAdapter D :=
  if s.executionCallback then { s with reports := s.reports ++ [response] } else s

def submitOrder [Zero D] (request : OrderRequest D) (s : MockExchangeAdapter D) : MockExchangeAdapter D × String :=
  if s.connected then
    let id := orderId (s.orderCounter + 1)
    let order := { request, status := .NEW, filledAmount := 0, fillPrice := 0 }
    ({ s with orderCounter := s.orderCounter + 1, threads := s.threads ++ [id] }.setOrder id order, id)
  else (s, "")

/-- Only cancel if not already filled. -/
def cancelOrder (now : Int) (id : String) (s : MockExchangeAdapter D) : MockExchangeAdapter D × Bool :=
  if s.connected then
    match s.orders id with
    | none => (s, false)
    | some order =>
      if order.status ≠ .FILLED then
        let response : OrderResponse D :=
          ⟨id, order.request.clientOrderId, .CANCELED, order.filledAmount, order.fillPrice, now⟩
        ((s.setOrder id { order with status := .CANCELED }).report response, true)
      else (s, false)
  else (s, false)

def modifyOrder (id : String) (newPrice newSize : D) (s : MockExchangeAdapter D) : MockExchangeAdapter D × Bool :=
  if s.connected then
    match s.orders id with
    | none => (s, false)
    | some order =>
      (s.setOrder id { order with request := { order.request with price := newPrice, size := newSize } }, true)
  else (s, false)

/-- The clock is read for the first report and for the second. -/
def simulateOrderExecution [Zero D] (now later : Int) (id : String) (s : MockExchangeAdapter D) :
    MockExchangeAdapter D :=
  match s.orders id with
  | none => s
  | some order =>
    let s := s.report ⟨id, order.request.clientOrderId, .NEW, 0, 0, now⟩
    if order.status = .CANCELED then s.report ⟨id, order.request.clientOrderId, .CANCELED, 0, 0, later⟩
    else
      let filled : OrderState D :=
        { order with filledAmount := order.request.size, fillPrice := order.request.price, status := .FILLED }
      (s.setOrder id filled).report
        ⟨id, order.request.clientOrderId, .FILLED, order.request.size, order.request.price, later⟩

/-! ## Runs -/

inductive Event (D : Type)
  | connect
  | disconnect
  | submitOrder (request : OrderRequest D)
  | cancelOrder (now : Int) (id : String)
  | modifyOrder (id : String) (newPrice newSize : D)
  | executes (now later : Int) (id : String)

/-- A thread takes the mutex at any time. -/
def step [Zero D] (s : MockExchangeAdapter D) : Event D → Option (MockExchangeAdapter D)
  | .connect => some s.connect
  | .disconnect => some s.disconnect
  | .submitOrder request => some (s.submitOrder request).1
  | .cancelOrder now id => some (s.cancelOrder now id).1
  | .modifyOrder id newPrice newSize => some (s.modifyOrder id newPrice newSize).1
  | .executes now later id =>
    if id ∈ s.threads then some ({ s with threads := s.threads.erase id }.simulateOrderExecution now later id) else none

/-! ## One order -/

def status (id : String) (s : MockExchangeAdapter D) : Option OrderStatus := (s.orders id).map OrderState.status

/-- The statuses reported for an order, oldest first. -/
def reportsOf (id : String) (s : MockExchangeAdapter D) : List OrderStatus :=
  (s.reports.filter fun response => response.orderId = id).map OrderResponse.status

/-- What an adapter has of an order: its status, its threads, its reports. -/
def view (id : String) (s : MockExchangeAdapter D) : Option OrderStatus × Nat × List OrderStatus :=
  (s.status id, s.threads.count id, s.reportsOf id)

end MockExchangeAdapter

end CryptoHft
