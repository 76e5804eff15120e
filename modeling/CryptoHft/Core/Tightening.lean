import CryptoHft.Core.Calls
import CryptoHft.Core.OrderBookHistory
import CryptoHft.Core.OrderBookReads
import Mathlib.Algebra.Order.Field.Basic

/-!
# Books from which nothing is removed

Operations that only store let a book grow: the levels that it has stay, at the sizes last written (`run_grows`). So its
touch only moves inwards, and its spread never widens.

* Composite reads cannot go wrong then: read in pieces, the spread lies between the one at the end and the one at the
  beginning, the mid price within the touch, and a published level is one of the book (`storing_reads`).
* Deltas without removals only store, so the books of an engine that handles nothing else tighten, and stay uncrossed
  (`handleAll_tightens`).
-/

namespace CryptoHft

open Std OrderedMap SharedReads

/-! ## Growing books -/

namespace OrderBook

section Growing

variable {D : Type} [LinearOrder D]

/-- The prices of the first book are prices of the second, which is not crossed if the first is not. -/
structure Grows (b b' : OrderBook D) : Prop where
  bids : ∀ p ∈ b.bids, p ∈ b'.bids
  asks : ∀ q ∈ b.asks, q ∈ b'.asks
  uncrossed : b.Uncrossed → b'.Uncrossed

/-- The operation writes a level, or nothing. -/
def Op.Stores : Op D → Prop
  | .updateBid _ _ | .updateAsk _ _ => True
  | _ => False

variable {b b' b'' : OrderBook D} {ops : List (Op D)}

theorem Grows.refl (b : OrderBook D) : Grows b b := ⟨fun _ h => h, fun _ h => h, id⟩

theorem Grows.trans (h : Grows b b') (h' : Grows b' b'') : Grows b b'' :=
  ⟨fun p hp => h'.bids p (h.bids p hp), fun q hq => h'.asks q (h.asks q hq), h'.uncrossed ∘ h.uncrossed⟩

theorem apply_grows {op : Op D} (h : op.Stores) (b : OrderBook D) : Grows b (b.apply op) := by
  have hunc : b.Uncrossed → (b.apply op).Uncrossed := by
    intro hb
    have hrun : (b.run [op]).Uncrossed := run_uncrossed hb fun newBids newAsks hm => by
      rw [← List.mem_singleton.1 hm] at h
      exact h.elim
    exact hrun
  cases op with
  | updateBid price size =>
    refine ⟨fun p hp => ?_, fun q hq => ?_, hunc⟩ <;> simp only [apply, updateBid]
    · split
      · exact ExtTreeMap.mem_insert.2 (Or.inr hp)
      · exact hp
    · split <;> exact hq
  | updateAsk price size =>
    refine ⟨fun p hp => ?_, fun q hq => ?_, hunc⟩ <;> simp only [apply, updateAsk]
    · split <;> exact hp
    · split
      · exact ExtTreeMap.mem_insert.2 (Or.inr hq)
      · exact hq
  | _ => exact h.elim

/-- **A run that only stores** lets the book grow. -/
theorem run_grows (h : ∀ op ∈ ops, op.Stores) (b : OrderBook D) : Grows b (b.run ops) := by
  induction ops generalizing b with
  | nil => exact .refl b
  | cons op ops ih =>
    obtain ⟨hop, hops⟩ := List.forall_mem_cons.1 h
    exact (apply_grows hop b).trans (ih hops _)

theorem advance_grows {gaps : List (List (Op D))} (h : ∀ gap ∈ gaps, ∀ op ∈ gap, op.Stores) (b : OrderBook D) :
    Grows b (advance apply b gaps) := by
  refine run_grows (fun op hop => ?_) b
  cases gaps with
  | nil => cases hop
  | cons gap gaps => exact h gap List.mem_cons_self op hop

theorem bids_ne_empty_of_mem {p : D} (h : p ∈ b.bids) : b.bids ≠ ∅ := by
  intro he
  simp [he] at h

theorem asks_ne_empty_of_mem {q : D} (h : q ∈ b.asks) : b.asks ≠ ∅ := by
  intro he
  simp [he] at h

section Touch

variable [Zero D]

theorem Grows.bids_ne_empty (h : Grows b b') (hne : b.bids ≠ ∅) : b'.bids ≠ ∅ :=
  bids_ne_empty_of_mem (h.bids _ (getBestBid_spec hne).1)

theorem Grows.asks_ne_empty (h : Grows b b') (hne : b.asks ≠ ∅) : b'.asks ≠ ∅ :=
  asks_ne_empty_of_mem (h.asks _ (getBestAsk_spec hne).1)

theorem Grows.bestBid_le (h : Grows b b') (hne : b.bids ≠ ∅) : b.getBestBid ≤ b'.getBestBid :=
  (getBestBid_spec (h.bids_ne_empty hne)).2 _ (h.bids _ (getBestBid_spec hne).1)

theorem Grows.bestAsk_le (h : Grows b b') (hne : b.asks ≠ ∅) : b'.getBestAsk ≤ b.getBestAsk :=
  (getBestAsk_spec (h.asks_ne_empty hne)).2 _ (h.asks _ (getBestAsk_spec hne).1)

/-- The best bid of the earlier book is below the best ask of the later one, and the other way round. -/
theorem Grows.touch_lt (h : Grows b b') (hunc : b.Uncrossed) (hbids : b.bids ≠ ∅) (hasks : b.asks ≠ ∅) :
    b.getBestBid < b'.getBestAsk ∧ b'.getBestBid < b.getBestAsk := by
  have hunc' := h.uncrossed hunc
  have hbid := h.bids _ (getBestBid_spec hbids).1
  have hask := h.asks _ (getBestAsk_spec hasks).1
  exact ⟨hunc' _ hbid _ (getBestAsk_spec (h.asks_ne_empty hasks)).1,
    hunc' _ (getBestBid_spec (h.bids_ne_empty hbids)).1 _ hask⟩

end Touch

end Growing

/-! ## Reads between operations that only store -/

section Reads

variable {D : Type} [Field D] [LinearOrder D] [IsStrictOrderedRing D] {b b' : OrderBook D}

theorem Grows.spread_le (h : Grows b b') (hbids : b.bids ≠ ∅) (hasks : b.asks ≠ ∅) : b'.getSpread ≤ b.getSpread :=
  sub_le_sub (h.bestAsk_le hasks) (h.bestBid_le hbids)

theorem mid_within {x y : D} (h : x < y) : x ≤ (x + y) / 2 ∧ (x + y) / 2 ≤ y :=
  ⟨(left_lt_add_div_two.2 h).le, (add_div_two_lt_right.2 h).le⟩

/-- **Composite reads between operations that only store.** Of a two-sided book that is not crossed, the spread is one
between that of the later book and that of the earlier one, the mid price lies within the touch, and what is published
are two levels of the book, the bid below the ask. -/
theorem storing_reads (b : OrderBook D) (hbids : b.bids ≠ ∅) (hasks : b.asks ≠ ∅) (hunc : b.Uncrossed)
    (gaps : List (List (Op D))) (h : ∀ gap ∈ gaps, ∀ op ∈ gap, op.Stores) :
    (∀ o, (advance apply b gaps).getSpread ≤ interleaved apply (getSpreadReads o) b gaps ∧
      interleaved apply (getSpreadReads o) b gaps ≤ b.getSpread ∧
      0 < interleaved apply (getSpreadReads o) b gaps) ∧
    (∀ o, b.getBestBid ≤ interleaved apply (getMidPriceReads o) b gaps ∧
      interleaved apply (getMidPriceReads o) b gaps ≤ b.getBestAsk) ∧
    ∀ delta, ∃ m m', Grows b m ∧ Grows b m' ∧
      m.bids[(interleaved apply (publishReads delta) b gaps).bidPrice]? =
        some (interleaved apply (publishReads delta) b gaps).bidSize ∧
      m'.asks[(interleaved apply (publishReads delta) b gaps).askPrice]? =
        some (interleaved apply (publishReads delta) b gaps).askSize ∧
      (interleaved apply (publishReads delta) b gaps).bidPrice <
        (interleaved apply (publishReads delta) b gaps).askPrice := by
  have hgrows := advance_grows h b
  have hbid := hgrows.bestBid_le hbids
  have hask := hgrows.bestAsk_le hasks
  obtain ⟨hlt, hlt'⟩ := hgrows.touch_lt hunc hbids hasks
  refine ⟨fun o => ?_, fun o => ?_, fun delta => ?_⟩
  · cases o with
    | leftFirst => exact ⟨sub_le_sub_right hask _, sub_le_sub_left hbid _, sub_pos.2 hlt'⟩
    | rightFirst => exact ⟨sub_le_sub_left hbid _, sub_le_sub_right hask _, sub_pos.2 hlt⟩
  · cases o with
    | leftFirst =>
      obtain ⟨hle, hle'⟩ := mid_within hlt
      exact ⟨hle, hle'.trans hask⟩
    | rightFirst =>
      obtain ⟨hle, hle'⟩ := mid_within hlt'
      exact ⟨hbid.trans hle, hle'⟩
  · -- the levels read first are still there when their sizes are read
    have htail : ∀ gap ∈ gaps.tail, ∀ op ∈ gap, op.Stores := fun gap hm => h gap (List.mem_of_mem_tail hm)
    have htail' : ∀ gap ∈ gaps.tail.tail, ∀ op ∈ gap, op.Stores := fun gap hm => htail gap (List.mem_of_mem_tail hm)
    have hsecond := advance_grows htail (advance apply b gaps)
    have hthird := advance_grows htail' (advance apply (advance apply b gaps) gaps.tail)
    refine ⟨_, _, hgrows.trans hsecond, (hgrows.trans hsecond).trans hthird, ?_, ?_, hlt⟩
    · obtain ⟨v, hv⟩ := mem_iff_exists.1 ((hgrows.trans hsecond).bids _ (getBestBid_spec hbids).1)
      refine hv.trans (congrArg some (getBidVolume_eq hv).symm)
    · have hmem := (getBestAsk_spec (hgrows.asks_ne_empty hasks)).1
      obtain ⟨v, hv⟩ := mem_iff_exists.1 ((hsecond.trans hthird).asks _ hmem)
      refine hv.trans (congrArg some (getAskVolume_eq hv).symm)

section Example

/-- Two bids come in between the two reads. -/
def bidsBetween : List (List (Op ℚ)) := [[.updateBid (201/2) 1, .updateBid 100 3]]

theorem bidsBetween_spread : 0 < interleaved apply (getSpreadReads .leftFirst) (oneLevel 100 101) bidsBetween := by
  have hstores : ∀ gap ∈ bidsBetween, ∀ op ∈ gap, op.Stores := by
    intro gap hgap op hop
    cases List.mem_singleton.1 hgap
    simp only [List.mem_cons, List.not_mem_nil, or_false] at hop
    rcases hop with rfl | rfl <;> trivial
  exact ((storing_reads (oneLevel 100 101) (by decide +kernel) (by decide +kernel) (by decide +kernel) bidsBetween
    hstores).1 .leftFirst).2.2

end Example

end Reads

end OrderBook

/-! ## Engines that handle no removals -/

/-- A delta without removals. -/
def MarketEvent.Stores {D : Type} [Zero D] : MarketEvent D → Prop
  | .snapshot _ => False
  | .delta d => (∀ u ∈ d.bidUpdates, u.2 ≠ 0) ∧ ∀ u ∈ d.askUpdates, u.2 ≠ 0

namespace MarketDataEngine

open OrderBook

section Deltas

variable {D : Type} [LinearOrder D] [Zero D]

theorem foldl_applyBid_grows {us : List (D × D)} (h : ∀ u ∈ us, u.2 ≠ 0) (b : OrderBook D) :
    Grows b (us.foldl applyBid b) := by
  induction us generalizing b with
  | nil => exact .refl b
  | cons u us ih =>
    obtain ⟨hu, hus⟩ := List.forall_mem_cons.1 h
    have hstep : applyBid b u = b.apply (.updateBid u.1 u.2) := if_neg hu
    have hstores : Op.Stores (.updateBid u.1 u.2) := trivial
    rw [List.foldl_cons, hstep]
    exact (apply_grows hstores b).trans (ih hus _)

theorem foldl_applyAsk_grows {us : List (D × D)} (h : ∀ u ∈ us, u.2 ≠ 0) (b : OrderBook D) :
    Grows b (us.foldl applyAsk b) := by
  induction us generalizing b with
  | nil => exact .refl b
  | cons u us ih =>
    obtain ⟨hu, hus⟩ := List.forall_mem_cons.1 h
    have hstep : applyAsk b u = b.apply (.updateAsk u.1 u.2) := if_neg hu
    have hstores : Op.Stores (.updateAsk u.1 u.2) := trivial
    rw [List.foldl_cons, hstep]
    exact (apply_grows hstores b).trans (ih hus _)

theorem book_grows {ev : MarketEvent D} (h : ev.Stores) (b : OrderBook D) : Grows b (ev.book b) := by
  cases ev with
  | snapshot s => exact h.elim
  | delta d => exact (foldl_applyBid_grows h.1 b).trans (foldl_applyAsk_grows h.2 _)

theorem handleAll_grows {T : Type} (e : MarketDataEngine T D) {calls : List (Call T D)} {x : String} {b : OrderBook D}
    (hb : e.getOrderBook x = some b) (h : ∀ c ∈ calls, c.event.symbol = x → c.event.Stores) :
    ∃ b', (e.handleAll calls).getOrderBook x = some b' ∧ Grows b b' := by
  induction calls generalizing e b with
  | nil => exact ⟨b, hb, .refl b⟩
  | cons c calls ih =>
    obtain ⟨hc, hcalls⟩ := List.forall_mem_cons.1 h
    have hbook : e.orderBooks x = some b := hb
    by_cases hx : c.event.symbol = x
    · have hstep : (e.handle c).getOrderBook x = some (c.event.book b) := by
        rw [getOrderBook, handle, callback_orderBooks, if_pos hx.symm, hbook]
        rfl
      obtain ⟨b', hb', hg⟩ := ih (e.handle c) hstep hcalls
      exact ⟨b', hb', (book_grows (hc hx) b).trans hg⟩
    · have hstep : (e.handle c).getOrderBook x = some b := (handle_orderBooks_ne hx).trans hbook
      exact ih (e.handle c) hstep hcalls

end Deltas

/-- **Without removals books tighten**: while an engine handles, for a symbol, deltas without removals only, the levels
of its book stay, the best bid does not fall, the best ask does not rise, and from a two-sided book that is not crossed
on, the spread stays positive and does not widen. -/
theorem handleAll_tightens {T D : Type} [Field D] [LinearOrder D] [IsStrictOrderedRing D] (e : MarketDataEngine T D)
    {calls : List (Call T D)} {x : String} {b : OrderBook D} (hb : e.getOrderBook x = some b)
    (h : ∀ c ∈ calls, c.event.symbol = x → c.event.Stores) :
    ∃ b', (e.handleAll calls).getOrderBook x = some b' ∧ Grows b b' ∧
      (b.bids ≠ ∅ → b.getBestBid ≤ b'.getBestBid) ∧ (b.asks ≠ ∅ → b'.getBestAsk ≤ b.getBestAsk) ∧
      (b.bids ≠ ∅ → b.asks ≠ ∅ → b.Uncrossed → 0 < b'.getSpread ∧ b'.getSpread ≤ b.getSpread) := by
  obtain ⟨b', hb', hg⟩ := handleAll_grows e hb h
  refine ⟨b', hb', hg, hg.bestBid_le, hg.bestAsk_le, fun hbids hasks hunc => ⟨?_, hg.spread_le hbids hasks⟩⟩
  have hbid := (getBestBid_spec (hg.bids_ne_empty hbids)).1
  have hask := (getBestAsk_spec (hg.asks_ne_empty hasks)).1
  exact sub_pos.2 (hg.uncrossed hunc _ hbid _ hask)

section Example

/-- An update of both sides, each price new. -/
def inwards : Call ℕ ℚ := ⟨0, ⟨"", 0, 0, 0, 0, 0, false⟩, .delta ⟨"BTC/USD", [(100, 1)], [(101, 1)], 0⟩⟩

def oneSymbol : MarketDataEngine ℕ ℚ := MarketDataEngine.constructed.initializeEngine ["BTC/USD"]

theorem inwards_tightens : ∃ b', (oneSymbol.handleAll [inwards, inwards]).getOrderBook "BTC/USD" = some b' ∧
    Grows .empty b' := by
  have hstores : ∀ c ∈ [inwards, inwards], c.event.symbol = "BTC/USD" → c.event.Stores := by
    intro c hc _
    simp only [List.mem_cons, List.not_mem_nil, or_false, or_self] at hc
    subst hc
    constructor <;> simp
  obtain ⟨b', hb', hg, -⟩ := handleAll_tightens oneSymbol (b := .empty) rfl hstores
  exact ⟨b', hb', hg⟩

end Example

end MarketDataEngine

end CryptoHft
