import CryptoHft.Core.OrderBook

/-!
# What a sequence of operations leaves in the book

Both results are about the book after any list of operations on the empty book.

* If every snapshot of the list is uncrossed, the book is uncrossed, so a write at a price already on its side is
  accepted (`run_uncrossed_accepts`).
* Whatever the snapshots, a level of the book is the one that the list wrote last and did not touch again, and the
  getters report exactly these levels (`run_levels`).
-/

namespace CryptoHft

open Std OrderedMap Machine

namespace OrderBook

variable {D : Type} [LinearOrder D]

/-! ## Uncrossed books -/

/-- Every snapshot of the list is uncrossed. -/
def SnapshotsUncrossed (ops : List (Op D)) : Prop :=
  ∀ newBids newAsks, Op.setSnapshot newBids newAsks ∈ ops → ∀ p ∈ newBids, ∀ q ∈ newAsks, p < q

theorem empty_uncrossed : (empty : OrderBook D).Uncrossed := by
  intro p hp
  simp [empty] at hp

/-- The ladder that an operation resets to is uncrossed, when the snapshot it installs is. -/
theorem uncrossed_of_view_eq_reset {op : Op D} {l : Ladder D D} (hl : op.view = .reset l)
    (hop : ∀ newBids newAsks, op = .setSnapshot newBids newAsks → ∀ p ∈ newBids, ∀ q ∈ newAsks, p < q) :
    l.Uncrossed := by
  cases op with
  | setSnapshot newBids newAsks =>
    cases hl
    rw [← uncrossed_iff]
    intro p hp q hq
    exact hop newBids newAsks rfl p ((mem_recmp _ p).1 hp) q hq
  | clear => cases hl; exact Ladder.empty_uncrossed
  | updateBid | updateAsk | removeBid | removeAsk => cases hl

theorem run_uncrossed {ops : List (Op D)} {b : OrderBook D} (h : b.Uncrossed) (hops : SnapshotsUncrossed ops) :
    (b.run ops).Uncrossed := by
  rw [uncrossed_iff, view_run]
  apply Ladder.foldl_uncrossed _ ((uncrossed_iff b).1 h)
  intro l hm
  obtain ⟨op, hop, hl⟩ := List.mem_map.1 hm
  apply uncrossed_of_view_eq_reset hl
  rintro newBids newAsks rfl
  exact hops newBids newAsks hop

/-- On an uncrossed book a size change of a resting bid is accepted. -/
theorem updateBid_resting {b : OrderBook D} (h : b.Uncrossed) {p : D} (hp : p ∈ b.bids) (size : D) :
    b.acceptsBid p = true ∧ (b.updateBid p size).bids[p]? = some size := by
  have ha : b.acceptsBid p = true := (acceptsBid_iff b p).2 (h p hp)
  refine ⟨ha, ?_⟩
  rw [updateBid, if_pos ha]
  exact ExtTreeMap.getElem?_insert_self

theorem updateAsk_resting {b : OrderBook D} (h : b.Uncrossed) {q : D} (hq : q ∈ b.asks) (size : D) :
    b.acceptsAsk q = true ∧ (b.updateAsk q size).asks[q]? = some size := by
  have ha : b.acceptsAsk q = true := (acceptsAsk_iff b q).2 fun p hp => h p hp q hq
  refine ⟨ha, ?_⟩
  rw [updateAsk, if_pos ha]
  exact ExtTreeMap.getElem?_insert_self

/-- **Every reachable book is uncrossed**, and a size change of a resting level is never dropped. -/
theorem run_uncrossed_accepts (ops : List (Op D)) (hops : SnapshotsUncrossed ops) :
    (empty.run ops).Uncrossed ∧
      (∀ p ∈ (empty.run ops).bids, ∀ size, (empty.run ops).acceptsBid p = true ∧
        ((empty.run ops).updateBid p size).bids[p]? = some size) ∧
      (∀ q ∈ (empty.run ops).asks, ∀ size, (empty.run ops).acceptsAsk q = true ∧
        ((empty.run ops).updateAsk q size).asks[q]? = some size) := by
  have h := run_uncrossed empty_uncrossed hops
  exact ⟨h, fun p hp size => updateBid_resting h hp size, fun q hq size => updateAsk_resting h hq size⟩

/-- The resting bid at 50000 stays writable through a snapshot and updates on both sides. -/
theorem resting_bid_accepts :
    ((empty : OrderBook ℤ).run
      [.setSnapshot (ExtTreeMap.ofList [(50000, 1)] compare) (ExtTreeMap.ofList [(50100, 1)] compare),
        .updateBid 49900 2, .updateAsk 50200 2]).acceptsBid 50000 = true := by
  refine ((run_uncrossed_accepts _ ?_).2.1 50000 (by decide) 7).1
  intro newBids newAsks hm p hp q hq
  simp only [List.mem_cons, Op.setSnapshot.injEq, reduceCtorEq, List.not_mem_nil, or_false] at hm
  obtain ⟨rfl, rfl⟩ := hm
  simp only [mem_ofList, List.map_cons, List.map_nil, List.mem_singleton] at hp hq
  omega

/-! ## The history of a level -/

/-- In book `b`, the operation writes the level `(p, s)` of the side: an update that crosses no level of the other
side, or a snapshot that maps `p` to `s`. -/
def Writes (b : OrderBook D) : Side → D → D → Op D → Prop
  | .bid, p, s, .updateBid p' s' => p' = p ∧ s' = s ∧ ∀ q ∈ b.asks, p' < q
  | .ask, p, s, .updateAsk p' s' => p' = p ∧ s' = s ∧ ∀ q ∈ b.bids, q < p'
  | .bid, p, s, .setSnapshot newBids _ => newBids[p]? = some s
  | .ask, p, s, .setSnapshot _ newAsks => newAsks[p]? = some s
  | _, _, _, _ => False

/-- In book `b`, the operation touches the level of the side at `p`. -/
def Overwrites (b : OrderBook D) : Side → D → Op D → Prop
  | .bid, p, .updateBid p' _ => p' = p ∧ ∀ q ∈ b.asks, p' < q
  | .ask, p, .updateAsk p' _ => p' = p ∧ ∀ q ∈ b.bids, q < p'
  | .bid, p, .removeBid p' => p' = p
  | .ask, p, .removeAsk p' => p' = p
  | _, _, .setSnapshot _ _ => True
  | _, _, .clear => True
  | _, _, _ => False

/-- Some operation of the list wrote `(p, s)` and no later one touched the level at `p`. -/
def LastWritten (side : Side) (p s : D) (ops : List (Op D)) : Prop :=
  ∃ pre op post, ops = pre ++ op :: post ∧ (empty.run pre).Writes side p s op ∧
    ∀ mid op' rest, post = mid ++ op' :: rest → ¬ (empty.run (pre ++ op :: mid)).Overwrites side p op'

/-- The ladder's effect is a write exactly when the operation writes the level. -/
theorem writes_iff (b : OrderBook D) (side : Side) (p s : D) (op : Op D) :
    b.Writes side p s op ↔ Ladder.effect side p b.view op.view = .write s := by
  cases op with
  | updateBid p' s' =>
    rw [Op.view, Ladder.effect_write_eq_write, accepts_bid_iff]
    cases side <;> simp [Writes]
  | updateAsk p' s' =>
    rw [Op.view, Ladder.effect_write_eq_write, accepts_ask_iff]
    cases side <;> simp [Writes]
  | removeBid | removeAsk =>
    refine iff_of_false ?_ Ladder.effect_drop_ne_write
    cases side <;> exact id
  | setSnapshot newBids newAsks =>
    rw [Op.view, Ladder.effect_reset_eq_write]
    cases side <;> simp [Writes]
  | clear =>
    rw [Op.view, Ladder.effect_reset_eq_write]
    cases side <;> simp [Writes, Ladder.empty]

/-- The ladder's effect keeps the cell exactly when the operation does not touch the level. -/
theorem not_overwrites_iff (b : OrderBook D) (side : Side) (p : D) (op : Op D) :
    ¬ b.Overwrites side p op ↔ Ladder.effect side p b.view op.view = .keep := by
  cases op with
  | updateBid p' s' =>
    rw [Op.view, Ladder.effect_write_eq_keep, accepts_bid_iff]
    cases side <;> simp [Overwrites]
  | updateAsk p' s' =>
    rw [Op.view, Ladder.effect_write_eq_keep, accepts_ask_iff]
    cases side <;> simp [Overwrites]
  | removeBid | removeAsk =>
    rw [Op.view, Ladder.effect_drop_eq_keep]
    cases side <;> simp [Overwrites]
  | setSnapshot | clear =>
    refine iff_of_false (not_not_intro ?_) Ladder.effect_reset_ne_keep
    cases side <;> trivial

theorem level_iff_lastWritten (ops : List (Op D)) (side : Side) (p s : D) :
    (empty.run ops).view side p = some s ↔ LastWritten side p s ops := by
  have hcell : ∀ (b : OrderBook D) (op : Op D), (b.apply op).view side p =
      (Ladder.effect side p b.view op.view).apply (b.view side p) := by
    intro b op
    rw [view_apply, Ladder.step_cell]
  have hempty : (empty : OrderBook D).view side p = none := by rw [view_empty]; rfl
  have h := @cell_foldl_eq_some _ _ D apply (fun b op => Ladder.effect side p b.view op.view) empty
    (fun b => b.view side p) hcell hempty ops s
  rw [run, h]
  unfold WrittenLast LastWritten
  simp only [writes_iff, not_overwrites_iff]
  rfl

/-! ## What the getters report -/

/-- The getters report the levels of the book. -/
structure Reports [Zero D] (b : OrderBook D) : Prop where
  bids : ∀ p : D, b.getBids[p]? = b.bids[p]?
  asks : ∀ q : D, b.getAsks[q]? = b.asks[q]?
  bidVolume : ∀ p s : D, b.bids[p]? = some s → b.getBidVolume p = s
  noBidVolume : ∀ p, p ∉ b.bids → b.getBidVolume p = 0
  askVolume : ∀ q s : D, b.asks[q]? = some s → b.getAskVolume q = s
  noAskVolume : ∀ q, q ∉ b.asks → b.getAskVolume q = 0
  bestBid : b.bids ≠ ∅ → b.getBestBid ∈ b.bids ∧ ∀ p ∈ b.bids, p ≤ b.getBestBid
  noBestBid : b.bids = ∅ → b.getBestBid = 0
  bestAsk : b.asks ≠ ∅ → b.getBestAsk ∈ b.asks ∧ ∀ q ∈ b.asks, b.getBestAsk ≤ q
  noBestAsk : b.asks = ∅ → b.getBestAsk = 0

theorem reports [Zero D] (b : OrderBook D) : b.Reports where
  bids p := getElem?_recmp _ p
  asks _ := rfl
  bidVolume _ _ h := getBidVolume_eq h
  noBidVolume _ h := getBidVolume_of_not_mem h
  askVolume _ _ h := getAskVolume_eq h
  noAskVolume _ h := getAskVolume_of_not_mem h
  bestBid h := getBestBid_spec h
  noBestBid h := getBestBid_empty b h
  bestAsk h := getBestAsk_spec h
  noBestAsk h := getBestAsk_empty b h

/-- **The book is its history**: the levels are those written last, each guard admits exactly the prices that cross no
level of the other side, and the getters report these levels. -/
theorem run_levels [Zero D] (ops : List (Op D)) :
    (∀ p s : D, (empty.run ops).bids[p]? = some s ↔ LastWritten .bid p s ops) ∧
      (∀ q s : D, (empty.run ops).asks[q]? = some s ↔ LastWritten .ask q s ops) ∧
      (∀ p, (empty.run ops).acceptsBid p = true ↔ ∀ q ∈ (empty.run ops).asks, p < q) ∧
      (∀ q, (empty.run ops).acceptsAsk q = true ↔ ∀ p ∈ (empty.run ops).bids, p < q) ∧
      (empty.run ops).Reports :=
  ⟨level_iff_lastWritten ops .bid, level_iff_lastWritten ops .ask, acceptsBid_iff _, acceptsAsk_iff _, reports _⟩

end OrderBook

end CryptoHft
