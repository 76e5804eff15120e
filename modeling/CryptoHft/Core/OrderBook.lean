import CryptoHft.Lib.OrderedMap
import CryptoHft.Core.Ladder

/-!
# The order book

`OrderBook` stores its bids in a map that iterates from the greatest price down and its asks in one that iterates from
the smallest price up. Prices and sizes are of one type `D` with a linear order; only the getters that combine prices
or sizes ask for arithmetic. Every method takes the book's lock for its whole body, so each is one atomic operation.

* The guards compare with the first entry of the other side only; this is a comparison with every level of it
  (`acceptsBid_iff`, `acceptsAsk_iff`).
* The book is a ladder (`view`), and each operation acts on it as the ladder's does (`view_apply`, `view_run`).
* The getters read the ladder: `getBestBid_eq`, `getBestAsk_eq`, `getBidVolume_eq`, `getAskVolume_eq`.
-/

namespace CryptoHft

open Std OrderedMap

structure OrderBook (D : Type) [LinearOrder D] where
  bids : ExtTreeMap D D greater
  asks : ExtTreeMap D D compare

namespace OrderBook

variable {D : Type} [LinearOrder D]

theorem ext_sides {b b' : OrderBook D} (hb : b.bids = b'.bids) (ha : b.asks = b'.asks) : b = b' := by
  cases b; cases b'
  cases hb; cases ha; rfl

instance : DecidableEq (OrderBook D) := fun b b' =>
  decidable_of_iff (b.bids = b'.bids ∧ b.asks = b'.asks)
    ⟨fun h => ext_sides h.1 h.2, fun h => ⟨congrArg bids h, congrArg asks h⟩⟩

/-! ## Writers -/

/-- The book as constructed. -/
def empty : OrderBook D := ⟨∅, ∅⟩

/-- The guard of `updateBid`: no asks, or below the first of them. -/
def acceptsBid (b : OrderBook D) (price : D) : Bool := (first b.asks).all fun best => price < best.1

/-- The guard of `updateAsk`: no bids, or above the first of them. -/
def acceptsAsk (b : OrderBook D) (price : D) : Bool := (first b.bids).all fun best => price > best.1

def updateBid (b : OrderBook D) (price size : D) : OrderBook D :=
  if b.acceptsBid price then { b with bids := b.bids.insert price size } else b

def updateAsk (b : OrderBook D) (price size : D) : OrderBook D :=
  if b.acceptsAsk price then { b with asks := b.asks.insert price size } else b

def removeBid (b : OrderBook D) (price : D) : OrderBook D := { b with bids := b.bids.erase price }

def removeAsk (b : OrderBook D) (price : D) : OrderBook D := { b with asks := b.asks.erase price }

/-- Both sides are replaced without a guard; the bids are copied from an ascending map into a descending one. -/
def setSnapshot (_ : OrderBook D) (newBids newAsks : ExtTreeMap D D compare) : OrderBook D :=
  ⟨recmp greater newBids, newAsks⟩

def clear (_ : OrderBook D) : OrderBook D := ⟨∅, ∅⟩

/-! ## Getters -/

section Getters

variable [Zero D]

def getBestBid (b : OrderBook D) : D :=
  match first b.bids with
  | none => 0
  | some best => best.1

def getBestAsk (b : OrderBook D) : D :=
  match first b.asks with
  | none => 0
  | some best => best.1

def getBidVolume (b : OrderBook D) (price : D) : D :=
  match b.bids[price]? with
  | some size => size
  | none => 0

def getAskVolume (b : OrderBook D) (price : D) : D :=
  match b.asks[price]? with
  | some size => size
  | none => 0

def getBids (b : OrderBook D) : ExtTreeMap D D compare := recmp compare b.bids

def getAsks (b : OrderBook D) : ExtTreeMap D D compare := b.asks

/-- The loop of the cumulative getters: stop at the first price that fails, else add the size. -/
def cumulate [Add D] (stop : D → Bool) : List (D × D) → D → D
  | [], volume => volume
  | (p, s) :: levels, volume => if stop p then volume else cumulate stop levels (volume + s)

def getCumulativeBidVolume [Add D] (b : OrderBook D) (price : D) : D :=
  cumulate (fun p => p ≤ price) b.bids.toList 0

def getCumulativeAskVolume [Add D] (b : OrderBook D) (price : D) : D :=
  cumulate (fun p => p ≥ price) b.asks.toList 0

end Getters

/-! ## Operations and runs -/

inductive Op (D : Type) [LinearOrder D]
  | updateBid (price size : D)
  | updateAsk (price size : D)
  | removeBid (price : D)
  | removeAsk (price : D)
  | setSnapshot (newBids newAsks : ExtTreeMap D D compare)
  | clear

def apply (b : OrderBook D) : Op D → OrderBook D
  | .updateBid price size => b.updateBid price size
  | .updateAsk price size => b.updateAsk price size
  | .removeBid price => b.removeBid price
  | .removeAsk price => b.removeAsk price
  | .setSnapshot newBids newAsks => b.setSnapshot newBids newAsks
  | .clear => b.clear

def run (b : OrderBook D) (ops : List (Op D)) : OrderBook D := ops.foldl apply b

@[simp] theorem run_cons (b : OrderBook D) (op : Op D) (ops : List (Op D)) :
    b.run (op :: ops) = (b.apply op).run ops := rfl

/-- Every bid price is below every ask price. -/
def Uncrossed (b : OrderBook D) : Prop := ∀ p ∈ b.bids, ∀ q ∈ b.asks, p < q

/-! ## The guards -/

/-- The guard of `updateBid` compares with every ask. -/
theorem acceptsBid_iff (b : OrderBook D) (price : D) : b.acceptsBid price = true ↔ ∀ q ∈ b.asks, price < q := by
  rw [forall_mem_iff_first (p := (price < ·)) fun hle hlt => hlt.trans_le (compare_ne_gt.1 hle), acceptsBid]
  cases first b.asks <;> simp

/-- The guard of `updateAsk` compares with every bid. -/
theorem acceptsAsk_iff (b : OrderBook D) (price : D) : b.acceptsAsk price = true ↔ ∀ p ∈ b.bids, p < price := by
  rw [forall_mem_iff_first (p := (· < price)) fun hle hlt => (greater_ne_gt.1 hle).trans_lt hlt, acceptsAsk]
  cases first b.bids <;> simp

/-! ## The book as a ladder -/

def view (b : OrderBook D) : Ladder D D
  | .bid, p => b.bids[p]?
  | .ask, p => b.asks[p]?

@[simp] theorem view_bid (b : OrderBook D) (p : D) : b.view .bid p = b.bids[p]? := rfl

@[simp] theorem view_ask (b : OrderBook D) (p : D) : b.view .ask p = b.asks[p]? := rfl

def Op.view : Op D → Ladder.Op D D
  | .updateBid price size => .write .bid price size
  | .updateAsk price size => .write .ask price size
  | .removeBid price => .drop .bid price
  | .removeAsk price => .drop .ask price
  | .setSnapshot newBids newAsks => .reset ((⟨recmp greater newBids, newAsks⟩ : OrderBook D).view)
  | .clear => .reset Ladder.empty

@[simp] theorem view_empty : (empty : OrderBook D).view = Ladder.empty := by
  funext s p
  cases s <;> simp [empty, Ladder.empty]

theorem accepts_bid_iff (b : OrderBook D) (price : D) : b.view.Accepts .bid price ↔ ∀ q ∈ b.asks, price < q := by
  simp only [mem_iff_exists]
  exact ⟨fun h q ⟨v, hv⟩ => h q v hv, fun h q v hv => h q ⟨v, hv⟩⟩

theorem accepts_ask_iff (b : OrderBook D) (price : D) : b.view.Accepts .ask price ↔ ∀ p ∈ b.bids, p < price := by
  simp only [mem_iff_exists]
  exact ⟨fun h q ⟨v, hv⟩ => h q v hv, fun h q v hv => h q ⟨v, hv⟩⟩

/-- The book is uncrossed when its ladder is. -/
theorem uncrossed_iff (b : OrderBook D) : b.Uncrossed ↔ b.view.Uncrossed := by
  constructor
  · intro h s p v hp
    cases s with
    | bid => exact (accepts_bid_iff b p).2 fun q hq => h p (mem_of_getElem? hp) q hq
    | ask => exact (accepts_ask_iff b p).2 fun q hq => h q hq p (mem_of_getElem? hp)
  · intro h p hp q hq
    obtain ⟨v, hv⟩ := mem_iff_exists.1 hp
    exact (accepts_bid_iff b p).1 (h .bid p v hv) q hq

theorem view_updateBid (b : OrderBook D) (price size : D) :
    (b.updateBid price size).view = b.view.step (.write .bid price size) := by
  have hacc : b.acceptsBid price = true ↔ b.view.Accepts .bid price :=
    (acceptsBid_iff b price).trans (accepts_bid_iff b price).symm
  unfold updateBid
  by_cases ha : b.acceptsBid price = true
  · rw [if_pos ha]
    apply Ladder.eq_step_write (hacc.1 ha)
    · exact ExtTreeMap.getElem?_insert_self
    · intro s p hc
      cases s with
      | bid => exact getElem?_insert_ne _ _ fun he => hc ⟨rfl, he⟩
      | ask => rfl
  · rw [if_neg ha, Ladder.step_write_of_not_accepts (mt hacc.2 ha)]

theorem view_updateAsk (b : OrderBook D) (price size : D) :
    (b.updateAsk price size).view = b.view.step (.write .ask price size) := by
  have hacc : b.acceptsAsk price = true ↔ b.view.Accepts .ask price :=
    (acceptsAsk_iff b price).trans (accepts_ask_iff b price).symm
  unfold updateAsk
  by_cases ha : b.acceptsAsk price = true
  · rw [if_pos ha]
    apply Ladder.eq_step_write (hacc.1 ha)
    · exact ExtTreeMap.getElem?_insert_self
    · intro s p hc
      cases s with
      | bid => rfl
      | ask => exact getElem?_insert_ne _ _ fun he => hc ⟨rfl, he⟩
  · rw [if_neg ha, Ladder.step_write_of_not_accepts (mt hacc.2 ha)]

theorem view_removeBid (b : OrderBook D) (price : D) : (b.removeBid price).view = b.view.step (.drop .bid price) := by
  apply Ladder.eq_step_drop
  · exact ExtTreeMap.getElem?_erase_self
  · intro s p hc
    cases s with
    | bid => exact getElem?_erase_ne _ fun he => hc ⟨rfl, he⟩
    | ask => rfl

theorem view_removeAsk (b : OrderBook D) (price : D) : (b.removeAsk price).view = b.view.step (.drop .ask price) := by
  apply Ladder.eq_step_drop
  · exact ExtTreeMap.getElem?_erase_self
  · intro s p hc
    cases s with
    | bid => rfl
    | ask => exact getElem?_erase_ne _ fun he => hc ⟨rfl, he⟩

/-- **Each operation of the book is the ladder's.** -/
theorem view_apply (b : OrderBook D) (op : Op D) : (b.apply op).view = b.view.step op.view := by
  cases op with
  | updateBid price size => exact view_updateBid b price size
  | updateAsk price size => exact view_updateAsk b price size
  | removeBid price => exact view_removeBid b price
  | removeAsk price => exact view_removeAsk b price
  | setSnapshot newBids newAsks => exact (Ladder.step_reset b.view _).symm
  | clear => exact view_empty.trans (Ladder.step_reset b.view _).symm

theorem view_run (b : OrderBook D) (ops : List (Op D)) : (b.run ops).view = (ops.map Op.view).foldl Ladder.step b.view := by
  induction ops generalizing b with
  | nil => rfl
  | cons op ops ih => rw [run_cons, ih, view_apply]; rfl

/-! ## What the getters read -/

section Reads

variable [Zero D] (b : OrderBook D)

theorem getBestBid_empty (h : b.bids = ∅) : b.getBestBid = 0 := by
  rw [getBestBid, h, first_empty]

theorem getBestAsk_empty (h : b.asks = ∅) : b.getBestAsk = 0 := by
  rw [getBestAsk, h, first_empty]

variable {b}

/-- The best bid is the greatest bid price. -/
theorem getBestBid_eq {p : D} (hp : p ∈ b.bids) (hmax : ∀ p' ∈ b.bids, p' ≤ p) : b.getBestBid = p := by
  obtain ⟨v, hv⟩ := mem_iff_exists.1 hp
  have hf : first b.bids = some (p, v) := first_eq_some.2 ⟨hv, fun p' hp' => greater_ne_gt.2 (hmax p' hp')⟩
  rw [getBestBid, hf]

/-- The best ask is the smallest ask price. -/
theorem getBestAsk_eq {q : D} (hq : q ∈ b.asks) (hmin : ∀ q' ∈ b.asks, q ≤ q') : b.getBestAsk = q := by
  obtain ⟨v, hv⟩ := mem_iff_exists.1 hq
  have hf : first b.asks = some (q, v) := first_eq_some.2 ⟨hv, fun q' hq' => compare_ne_gt.2 (hmin q' hq')⟩
  rw [getBestAsk, hf]

theorem getBestBid_spec (h : b.bids ≠ ∅) : b.getBestBid ∈ b.bids ∧ ∀ p ∈ b.bids, p ≤ b.getBestBid := by
  unfold getBestBid
  cases hf : first b.bids with
  | none => exact absurd (first_eq_none.1 hf) h
  | some e => exact ⟨mem_of_first hf, fun p hp => greater_ne_gt.1 (first_le hf hp)⟩

theorem getBestAsk_spec (h : b.asks ≠ ∅) : b.getBestAsk ∈ b.asks ∧ ∀ q ∈ b.asks, b.getBestAsk ≤ q := by
  unfold getBestAsk
  cases hf : first b.asks with
  | none => exact absurd (first_eq_none.1 hf) h
  | some e => exact ⟨mem_of_first hf, fun q hq => compare_ne_gt.1 (first_le hf hq)⟩

theorem getBidVolume_eq {p s : D} (h : b.bids[p]? = some s) : b.getBidVolume p = s := by
  rw [getBidVolume, h]

theorem getAskVolume_eq {p s : D} (h : b.asks[p]? = some s) : b.getAskVolume p = s := by
  rw [getAskVolume, h]

theorem getBidVolume_of_not_mem {p : D} (h : p ∉ b.bids) : b.getBidVolume p = 0 := by
  rw [getBidVolume, ExtTreeMap.getElem?_eq_none h]

theorem getAskVolume_of_not_mem {p : D} (h : p ∉ b.asks) : b.getAskVolume p = 0 := by
  rw [getAskVolume, ExtTreeMap.getElem?_eq_none h]

end Reads

end OrderBook

end CryptoHft
