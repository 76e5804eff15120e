import CryptoHft.Core.Delta
import CryptoHft.Lib.SharedReads
import Mathlib.Algebra.Order.Ring.Rat
import Mathlib.Algebra.Field.Rat

/-!
# Composite reads of an order book

`getSpread`, `getMidPrice` and the publication of a delta read the book several times, taking and releasing its lock
for each read, so that operations of other threads can fall in between. The order of the two reads of `getSpread` and
`getMidPrice` is the compiler's choice.

* Read alone, each composite is the getter or the update of the sequential model (`alone_getSpread`,
  `alone_getMidPrice`, `alone_publish`).
* When, from some moment of the composite read, every foreign operation before it leaves the components already read
  as they were and every one after it leaves those still to be read, the result is the one of the book at that moment
  (`composite_reads_of_undisturbed`).
-/

namespace CryptoHft

open Std OrderedMap SharedReads

namespace OrderBook

/-- Which operand of a binary operator is evaluated first. -/
inductive Operands
  | leftFirst
  | rightFirst
deriving DecidableEq, Repr

variable {D : Type} [Field D] [LinearOrder D]

def getSpread (b : OrderBook D) : D := b.getBestAsk - b.getBestBid

def getMidPrice (b : OrderBook D) : D := (b.getBestBid + b.getBestAsk) / 2

/-! ## The readers -/

/-- `getBestAsk() - getBestBid()` -/
def getSpreadReads : Operands → Reader (OrderBook D) D D
  | .leftFirst => .read getBestAsk fun ask => .read getBestBid fun bid => .ret (ask - bid)
  | .rightFirst => .read getBestBid fun bid => .read getBestAsk fun ask => .ret (ask - bid)

/-- `(getBestBid() + getBestAsk()) / 2.0` -/
def getMidPriceReads : Operands → Reader (OrderBook D) D D
  | .leftFirst => .read getBestBid fun bid => .read getBestAsk fun ask => .ret ((bid + ask) / 2)
  | .rightFirst => .read getBestAsk fun ask => .read getBestBid fun bid => .ret ((bid + ask) / 2)

/-- The four reads with which the delta handler fills its update. -/
def publishReads (delta : OrderBookDelta D) : Reader (OrderBook D) D (MarketUpdate D) :=
  .read getBestBid fun bidPrice =>
  .read getBestAsk fun askPrice =>
  .read (fun b => b.getBidVolume bidPrice) fun bidSize =>
  .read (fun b => b.getAskVolume askPrice) fun askSize =>
  .ret ⟨delta.symbol, bidPrice, bidSize, askPrice, askSize, delta.timestamp, false⟩

theorem alone_getSpread (o : Operands) (b : OrderBook D) : alone (getSpreadReads o) b = b.getSpread := by
  cases o <;> rfl

theorem alone_getMidPrice (o : Operands) (b : OrderBook D) : alone (getMidPriceReads o) b = b.getMidPrice := by
  cases o <;> rfl

theorem alone_publish (delta : OrderBookDelta D) (b : OrderBook D) :
    alone (publishReads delta) b = MarketDataEngine.deltaUpdate delta b := rfl

/-! ## Undisturbed composites -/

theorem getSpread_nonneg [IsStrictOrderedRing D] {m : OrderBook D} (hbids : m.bids ≠ ∅) (hasks : m.asks ≠ ∅)
    (h : m.Uncrossed) : 0 ≤ m.getSpread := by
  have hlt : m.getBestBid < m.getBestAsk := h _ (getBestBid_spec hbids).1 _ (getBestAsk_spec hasks).1
  exact sub_nonneg.2 hlt.le

/-- A non-empty bid side is published with a level that is its best bid. -/
theorem bids_of_deltaUpdate (delta : OrderBookDelta D) {m : OrderBook D} (hbids : m.bids ≠ ∅) :
    m.bids[(MarketDataEngine.deltaUpdate delta m).bidPrice]? = some (MarketDataEngine.deltaUpdate delta m).bidSize := by
  obtain ⟨v, hv⟩ := mem_iff_exists.1 (getBestBid_spec hbids).1
  simp only [MarketDataEngine.deltaUpdate]
  rw [hv, getBidVolume_eq hv]

/-- **Composite reads**: undisturbed by the foreign operations, each gives the result of the book at one moment
between its first and its last read. -/
theorem composite_reads_of_undisturbed [IsStrictOrderedRing D] (b : OrderBook D) (gaps : List (List (Op D))) :
    (∀ o, Undisturbed apply [] (getSpreadReads o) b gaps →
      (∃ m ∈ moments apply (getSpreadReads o) b gaps,
        interleaved apply (getSpreadReads o) b gaps = m.getSpread) ∧
      ((∀ m ∈ moments apply (getSpreadReads o) b gaps, m.bids ≠ ∅ ∧ m.asks ≠ ∅ ∧ m.Uncrossed) →
        0 ≤ interleaved apply (getSpreadReads o) b gaps)) ∧
    (∀ o, Undisturbed apply [] (getMidPriceReads o) b gaps →
      ∃ m ∈ moments apply (getMidPriceReads o) b gaps,
        interleaved apply (getMidPriceReads o) b gaps = m.getMidPrice) ∧
    (∀ delta, Undisturbed apply [] (publishReads delta) b gaps →
      ∃ m ∈ moments apply (publishReads delta) b gaps,
        interleaved apply (publishReads delta) b gaps = MarketDataEngine.deltaUpdate delta m ∧
          (m.bids ≠ ∅ → m.bids[(interleaved apply (publishReads delta) b gaps).bidPrice]? =
            some (interleaved apply (publishReads delta) b gaps).bidSize ∧
            ∀ p ∈ m.bids, p ≤ (interleaved apply (publishReads delta) b gaps).bidPrice)) := by
  refine ⟨fun o h => ?_, fun o h => ?_, fun delta h => ?_⟩
  · obtain ⟨m, hm, heq⟩ := interleaved_of_undisturbed h
    rw [alone_getSpread] at heq
    refine ⟨⟨m, hm, heq⟩, fun htwo => ?_⟩
    obtain ⟨hbids, hasks, hunc⟩ := htwo m hm
    rw [heq]
    exact getSpread_nonneg hbids hasks hunc
  · obtain ⟨m, hm, heq⟩ := interleaved_of_undisturbed h
    rw [alone_getMidPrice] at heq
    exact ⟨m, hm, heq⟩
  · obtain ⟨m, hm, heq⟩ := interleaved_of_undisturbed h
    rw [alone_publish] at heq
    refine ⟨m, hm, heq, fun hbids => ?_⟩
    rw [heq]
    exact ⟨bids_of_deltaUpdate delta hbids, (getBestBid_spec hbids).2⟩

/-! ## Disturbed composites -/

section Disturbed

/-- A book with one level on each side. -/
def oneLevel (bid ask : ℚ) : OrderBook ℚ := ⟨ExtTreeMap.ofList [(bid, 1)] greater, ExtTreeMap.ofList [(ask, 1)] compare⟩

/-- A snapshot with one level on each side. -/
def oneLevelSnapshot (bid ask : ℚ) : Op ℚ :=
  .setSnapshot (ExtTreeMap.ofList [(bid, 1)] compare) (ExtTreeMap.ofList [(ask, 1)] compare)

/-- Between the read of the bid and the read of the ask the best ask moves up: the spread is that of the later book. -/
theorem getSpread_undisturbed :
    0 ≤ interleaved apply (getSpreadReads .rightFirst) (oneLevel 100 101) [[.updateAsk 102 1, .removeAsk 101]] := by
  refine ((composite_reads_of_undisturbed (oneLevel 100 101) [[.updateAsk 102 1, .removeAsk 101]]).1 .rightFirst ?_).2 ?_
  · refine .inl ⟨[.updateAsk 102 1, .removeAsk 101], [], rfl, ?_, ⟨trivial, trivial⟩, ⟨trivial, trivial⟩⟩
    simp only [List.mem_singleton, forall_eq, Leaves]
    exact ⟨rfl, rfl, trivial⟩
  · decide

/-- A snapshot between the two reads makes the spread of an always uncrossed, always two-sided book negative, and a
removal between the reads of the best bid and of its size publishes a level that never existed. -/
theorem composite_reads_torn :
    (∀ m ∈ moments apply (getSpreadReads .leftFirst) (oneLevel 100 101) [[oneLevelSnapshot 105 106]],
        m.bids ≠ ∅ ∧ m.asks ≠ ∅ ∧ m.Uncrossed ∧ m.getSpread = 1) ∧
      interleaved apply (getSpreadReads .leftFirst) (oneLevel 100 101) [[oneLevelSnapshot 105 106]] = -4 ∧
      interleaved apply (getSpreadReads .rightFirst) (oneLevel 105 106) [[oneLevelSnapshot 100 101]] = -4 ∧
      (let gaps := [[], [.removeBid 100], []]
        let u := interleaved apply (publishReads ⟨"BTC-USD", [], [], 0⟩) (oneLevel 100 101) gaps
        (u.bidPrice, u.bidSize) = (100, 0) ∧
          ∀ m ∈ moments apply (publishReads ⟨"BTC-USD", [], [], 0⟩) (oneLevel 100 101) gaps,
            m.bids[u.bidPrice]? ≠ some u.bidSize) := by
  decide +kernel

end Disturbed

end OrderBook

end CryptoHft
