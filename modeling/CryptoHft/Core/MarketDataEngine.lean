import CryptoHft.Core.OrderBook
import CryptoHft.Exchanges.IExchangeAdapter
import CryptoHft.Lib.ProducerQueue

/-!
# The market data engine

The engine owns one order book per symbol, keeps it up to date from the callbacks of the exchange adapters, and queues
a `MarketUpdate` with the top of the book for every callback of a known symbol. The queue is first-in first-out for
each thread that enqueues. Threads are of any type `T`.

* A handler of an unknown symbol changes nothing (`handleOrderBookSnapshot_unknown`, `handleOrderBookDelta_unknown`);
  a handler of a known symbol changes the book of that symbol only and queues one update
  (`handleOrderBookSnapshot_known`, `handleOrderBookDelta_known`, `callback_orderBooks`).
-/

namespace CryptoHft

open Std OrderedMap

structure MarketUpdate (D : Type) where
  symbol : String
  bidPrice : D
  bidSize : D
  askPrice : D
  askSize : D
  timestamp : Int
  isSnapshot : Bool
deriving DecidableEq, Repr

structure MarketDataEngine (T D : Type) [LinearOrder D] where
  orderBooks : String → Option (OrderBook D)
  updateQueue : List (T × MarketUpdate D)
  running : Bool
  /-- Whether the stored callback is non-empty. -/
  updateCallback : Bool

namespace MarketDataEngine

variable {T D : Type} [LinearOrder D]

/-- The engine as constructed. -/
def constructed : MarketDataEngine T D := ⟨fun _ => none, [], false, false⟩

def registerCallback (e : MarketDataEngine T D) : MarketDataEngine T D := { e with updateCallback := true }

/-- A running engine only warns; otherwise every listed symbol gets a fresh book and the threads start. -/
def initializeEngine (e : MarketDataEngine T D) (symbols : List String) : MarketDataEngine T D :=
  if e.running then e
  else
    { e with
      orderBooks := symbols.foldl (fun books symbol => Function.update books symbol (some .empty)) e.orderBooks
      running := true }

def getOrderBook (e : MarketDataEngine T D) (symbol : String) : Option (OrderBook D) := e.orderBooks symbol

/-! ## Snapshots -/

/-- The map that the snapshot handler fills by assigning `levels[price] = size` in list order. -/
def toMap (levels : List (D × D)) : ExtTreeMap D D compare := levels.foldl (fun m level => m.insert level.1 level.2) ∅

/-- The update of the snapshot handler: a declared but uninitialised `MarketUpdate` whose price fields are only
assigned on a side that has levels. -/
def snapshotUpdate (uninit : MarketUpdate D) (snapshot : OrderBookSnapshot D) (bids asks : ExtTreeMap D D compare) :
    MarketUpdate D :=
  let update := { uninit with symbol := snapshot.symbol, timestamp := snapshot.timestamp, isSnapshot := true }
  let update :=
    match first bids with
    | some begin => { update with bidPrice := begin.1, bidSize := begin.2 }
    | none => update
  match first asks with
  | some begin => { update with askPrice := begin.1, askSize := begin.2 }
  | none => update

def installSnapshot (b : OrderBook D) (snapshot : OrderBookSnapshot D) : OrderBook D :=
  b.setSnapshot (toMap snapshot.bids) (toMap snapshot.asks)

def handleOrderBookSnapshot (uninit : MarketUpdate D) (thread : T) (e : MarketDataEngine T D)
    (snapshot : OrderBookSnapshot D) : MarketDataEngine T D :=
  match e.getOrderBook snapshot.symbol with
  | none => e
  | some orderBook =>
    let update := snapshotUpdate uninit snapshot (toMap snapshot.bids) (toMap snapshot.asks)
    { e with
      orderBooks := Function.update e.orderBooks snapshot.symbol (some (installSnapshot orderBook snapshot))
      updateQueue := ProducerQueue.enqueue thread update e.updateQueue }

/-! ## Deltas -/

section Delta

variable [Zero D]

/-- One turn of the loop over `bidUpdates`. -/
def applyBid (b : OrderBook D) (bid : D × D) : OrderBook D :=
  if bid.2 = 0 then b.removeBid bid.1 else b.updateBid bid.1 bid.2

/-- One turn of the loop over `askUpdates`. -/
def applyAsk (b : OrderBook D) (ask : D × D) : OrderBook D :=
  if ask.2 = 0 then b.removeAsk ask.1 else b.updateAsk ask.1 ask.2

/-- All bid updates first, then all ask updates. -/
def applyDelta (b : OrderBook D) (delta : OrderBookDelta D) : OrderBook D :=
  delta.askUpdates.foldl applyAsk (delta.bidUpdates.foldl applyBid b)

def deltaUpdate (delta : OrderBookDelta D) (b : OrderBook D) : MarketUpdate D where
  symbol := delta.symbol
  timestamp := delta.timestamp
  isSnapshot := false
  bidPrice := b.getBestBid
  askPrice := b.getBestAsk
  bidSize := b.getBidVolume b.getBestBid
  askSize := b.getAskVolume b.getBestAsk

def handleOrderBookDelta (thread : T) (e : MarketDataEngine T D) (delta : OrderBookDelta D) : MarketDataEngine T D :=
  match e.getOrderBook delta.symbol with
  | none => e
  | some orderBook =>
    let orderBook := applyDelta orderBook delta
    { e with
      orderBooks := Function.update e.orderBooks delta.symbol (some orderBook)
      updateQueue := ProducerQueue.enqueue thread (deltaUpdate delta orderBook) e.updateQueue }

end Delta

/-! ## What the handlers do -/

variable {e : MarketDataEngine T D} {thread : T} {uninit : MarketUpdate D}

theorem handleOrderBookSnapshot_unknown {snapshot : OrderBookSnapshot D} (h : e.orderBooks snapshot.symbol = none) :
    handleOrderBookSnapshot uninit thread e snapshot = e := by
  simp [handleOrderBookSnapshot, getOrderBook, h]

theorem handleOrderBookDelta_unknown [Zero D] {delta : OrderBookDelta D} (h : e.orderBooks delta.symbol = none) :
    handleOrderBookDelta thread e delta = e := by
  simp [handleOrderBookDelta, getOrderBook, h]

theorem handleOrderBookSnapshot_known {snapshot : OrderBookSnapshot D} {b : OrderBook D}
    (h : e.orderBooks snapshot.symbol = some b) :
    handleOrderBookSnapshot uninit thread e snapshot =
      { e with
        orderBooks := Function.update e.orderBooks snapshot.symbol (some (installSnapshot b snapshot))
        updateQueue := e.updateQueue ++
          [(thread, snapshotUpdate uninit snapshot (toMap snapshot.bids) (toMap snapshot.asks))] } := by
  simp [handleOrderBookSnapshot, getOrderBook, h, ProducerQueue.enqueue]

theorem handleOrderBookDelta_known [Zero D] {delta : OrderBookDelta D} {b : OrderBook D}
    (h : e.orderBooks delta.symbol = some b) :
    handleOrderBookDelta thread e delta =
      { e with
        orderBooks := Function.update e.orderBooks delta.symbol (some (applyDelta b delta))
        updateQueue := e.updateQueue ++ [(thread, deltaUpdate delta (applyDelta b delta))] } := by
  simp [handleOrderBookDelta, getOrderBook, h, ProducerQueue.enqueue]

/-! ## Callbacks -/

end MarketDataEngine

namespace MarketEvent

variable {D : Type} [LinearOrder D]

def symbol : MarketEvent D → String
  | snapshot s => s.symbol
  | delta d => d.symbol

variable [Zero D]

/-- What the handler of the event does to the book of its symbol. -/
def book (b : OrderBook D) : MarketEvent D → OrderBook D
  | snapshot s => MarketDataEngine.installSnapshot b s
  | delta d => MarketDataEngine.applyDelta b d

/-- The update that the handler fills, where `b` is the book it has left. -/
def update (uninit : MarketUpdate D) (b : OrderBook D) : MarketEvent D → MarketUpdate D
  | snapshot s =>
    MarketDataEngine.snapshotUpdate uninit s (MarketDataEngine.toMap s.bids) (MarketDataEngine.toMap s.asks)
  | delta d => MarketDataEngine.deltaUpdate d b

end MarketEvent

namespace MarketDataEngine

variable {T D : Type} [LinearOrder D] {e : MarketDataEngine T D} {thread : T} {uninit : MarketUpdate D}

/-- The callback that `initialize` registers for the event. -/
def callback [Zero D] (uninit : MarketUpdate D) (thread : T) (e : MarketDataEngine T D) :
    MarketEvent D → MarketDataEngine T D
  | .snapshot s => handleOrderBookSnapshot uninit thread e s
  | .delta d => handleOrderBookDelta thread e d

theorem callback_unknown [Zero D] {ev : MarketEvent D} (h : e.orderBooks ev.symbol = none) :
    callback uninit thread e ev = e := by
  cases ev with
  | snapshot s => exact handleOrderBookSnapshot_unknown h
  | delta d => exact handleOrderBookDelta_unknown h

theorem callback_known [Zero D] {ev : MarketEvent D} {b : OrderBook D} (h : e.orderBooks ev.symbol = some b) :
    callback uninit thread e ev =
      { e with
        orderBooks := Function.update e.orderBooks ev.symbol (some (ev.book b))
        updateQueue := e.updateQueue ++ [(thread, ev.update uninit (ev.book b))] } := by
  cases ev with
  | snapshot s => exact handleOrderBookSnapshot_known h
  | delta d => exact handleOrderBookDelta_known h

/-- The callback changes the book of its symbol, and no other. -/
theorem callback_orderBooks [Zero D] (ev : MarketEvent D) (x : String) :
    (callback uninit thread e ev).orderBooks x =
      if x = ev.symbol then (e.orderBooks x).map fun b => ev.book b else e.orderBooks x := by
  cases h : e.orderBooks ev.symbol with
  | none =>
    rw [callback_unknown h]
    split
    · next hx => rw [hx, h]; rfl
    · rfl
  | some b =>
    rw [callback_known h]
    split
    · next hx => subst hx; simp [h]
    · next hx => simp [hx]

/-- Initialisation leaves the book of a symbol it lists empty, and every other book as it was. -/
theorem initializeEngine_orderBooks (h : e.running = false) (symbols : List String) (x : String) :
    (e.initializeEngine symbols).orderBooks x = if x ∈ symbols then some .empty else e.orderBooks x := by
  simp only [initializeEngine, h, Bool.false_eq_true, ↓reduceIte]
  generalize e.orderBooks = books
  induction symbols generalizing books with
  | nil => simp
  | cons s symbols ih =>
    rw [List.foldl_cons, ih]
    by_cases hx : x ∈ symbols
    · simp [hx]
    · by_cases hs : x = s
      · subst hs; simp
      · simp [hx, hs]

end MarketDataEngine

end CryptoHft
