import Mathlib.Algebra.Order.Ring.Int

/-!
# The data of the exchange interface

What an adapter hands to its callbacks, and the requests for orders.
-/

namespace CryptoHft

structure MarketData (D : Type) where
  symbol : String
  bidPrice : D
  bidSize : D
  askPrice : D
  askSize : D
  timestamp : Int
deriving DecidableEq, Repr

structure OrderBookSnapshot (D : Type) where
  symbol : String
  /-- price, size -/
  bids : List (D × D)
  /-- price, size -/
  asks : List (D × D)
  timestamp : Int
deriving DecidableEq, Repr

structure OrderBookDelta (D : Type) where
  symbol : String
  /-- price, size (0 for removal) -/
  bidUpdates : List (D × D)
  /-- price, size (0 for removal) -/
  askUpdates : List (D × D)
  timestamp : Int
deriving DecidableEq, Repr

/-- One call of a registered callback. -/
inductive MarketEvent (D : Type)
  | snapshot (s : OrderBookSnapshot D)
  | delta (d : OrderBookDelta D)
deriving DecidableEq, Repr

/-! ## Orders -/

inductive OrderStatus
  | NEW
  | PARTIALLY_FILLED
  | FILLED
  | CANCELED
  | REJECTED
deriving DecidableEq, Repr

inductive OrderSide
  | BUY
  | SELL
deriving DecidableEq, Repr

inductive OrderType
  | MARKET
  | LIMIT
deriving DecidableEq, Repr

structure OrderRequest (D : Type) where
  symbol : String
  side : OrderSide
  type : OrderType
  /-- For limit orders. -/
  price : D
  size : D
  clientOrderId : String
deriving DecidableEq, Repr

structure OrderResponse (D : Type) where
  orderId : String
  clientOrderId : String
  status : OrderStatus
  filledAmount : D
  fillPrice : D
  timestamp : Int
deriving DecidableEq, Repr

end CryptoHft
