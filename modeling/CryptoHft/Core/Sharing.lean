import CryptoHft.Core.Replica
import CryptoHft.Core.Serial

/-!
# Threads that share a symbol

Two threads that call the handlers of one symbol can tear its book (`Parallel.shared_symbol_torn`). They cannot when they
handle deltas only, each at prices of its own, with the bids of all of them below the asks of all of them.

* Then no guard refuses anything: an operation sets the level that it names and leaves the others, whatever the book is
  (`OrderBook.apply_within`, `OrderBook.run_within`).
* So the levels of one thread only depend on its own operations, and whenever no call is under way the book is that of
  the serial engine, whichever way the entries of the deltas were interleaved (`Parallel.run_shared`).
-/

namespace CryptoHft

open Machine SharedReads

/-! ## Operations at given prices -/

namespace OrderBook

variable {D : Type} [LinearOrder D] {prices : Side → D → Prop} {b : OrderBook D} {op : Op D} {ops : List (Op D)}

/-- The operation names one level, at one of the prices. -/
def Op.Within (prices : Side → D → Prop) : Op D → Prop
  | .updateBid price _ | .removeBid price => prices .bid price
  | .updateAsk price _ | .removeAsk price => prices .ask price
  | .setSnapshot _ _ | .clear => False

/-- The book has levels at the prices only. -/
def Within (prices : Side → D → Prop) (b : OrderBook D) : Prop := ∀ s p v, b.view s p = some v → prices s p

/-- What an operation that is not refused does to a level. -/
def Op.change (s : Side) (p : D) : Op D → Effect D
  | .updateBid price size => if s = .bid ∧ p = price then .write size else .keep
  | .updateAsk price size => if s = .ask ∧ p = price then .write size else .keep
  | .removeBid price => if s = .bid ∧ p = price then .erase else .keep
  | .removeAsk price => if s = .ask ∧ p = price then .erase else .keep
  | .setSnapshot _ _ | .clear => .keep

/-- What a list of operations that are not refused makes of a level. -/
def changed (s : Side) (p : D) (ops : List (Op D)) (c : Option D) : Option D :=
  ops.foldl (fun c op => (op.change s p).apply c) c

theorem empty_within : (empty : OrderBook D).Within prices := by
  intro s p v h
  rw [view_empty] at h
  cases h

theorem Op.change_of_not (h : op.Within prices) {s : Side} {p : D} (hp : ¬ prices s p) : op.change s p = .keep := by
  have hne : ∀ {s' : Side} {p' : D}, prices s' p' → ¬ (s = s' ∧ p = p') := by
    rintro s' p' h' ⟨rfl, rfl⟩
    exact hp h'
  cases op with
  | updateBid | updateAsk | removeBid | removeAsk => exact if_neg (hne h)
  | setSnapshot | clear => exact h.elim

theorem changed_of_not (h : ∀ op ∈ ops, op.Within prices) {s : Side} {p : D} (hp : ¬ prices s p) (c : Option D) :
    changed s p ops c = c := by
  induction ops generalizing c with
  | nil => rfl
  | cons op ops ih =>
    obtain ⟨hop, hops⟩ := List.forall_mem_cons.1 h
    rw [changed, List.foldl_cons, op.change_of_not hop hp]
    exact ih hops c

/-- Every bid price is below every ask price. -/
def Apart (prices : Side → D → Prop) : Prop := ∀ p q, prices .bid p → prices .ask q → p < q

/-- **Nothing is refused** where the bids are kept below the asks. -/
theorem apply_within (hapart : Apart prices) (hb : b.Within prices) (hop : op.Within prices) :
    (b.apply op).Within prices ∧ ∀ s p, (b.apply op).view s p = (op.change s p).apply (b.view s p) := by
  have hview : ∀ s p, (b.apply op).view s p = (op.change s p).apply (b.view s p) := by
    intro s p
    rw [view_apply, Ladder.step_cell]
    congr 1
    cases op with
    | updateBid price size =>
      have ha : b.view.Accepts .bid price := fun q v hq => hapart price q hop (hb .ask q v hq)
      simp [Op.view, Op.change, Ladder.effect, ha, eq_comm]
    | updateAsk price size =>
      have ha : b.view.Accepts .ask price := fun q v hq => hapart q price (hb .bid q v hq) hop
      simp [Op.view, Op.change, Ladder.effect, ha, eq_comm]
    | removeBid | removeAsk => simp [Op.view, Op.change, Ladder.effect, eq_comm]
    | setSnapshot | clear => exact hop.elim
  refine ⟨fun s p v hv => ?_, hview⟩
  by_contra hp
  rw [hview, op.change_of_not hop hp] at hv
  exact hp (hb s p v hv)

theorem run_within (hapart : Apart prices) (hb : b.Within prices) (hops : ∀ op ∈ ops, op.Within prices) :
    (b.run ops).Within prices ∧ ∀ s p, (b.run ops).view s p = changed s p ops (b.view s p) := by
  induction ops generalizing b with
  | nil => exact ⟨hb, fun _ _ => rfl⟩
  | cons op ops ih =>
    obtain ⟨hop, hops⟩ := List.forall_mem_cons.1 hops
    obtain ⟨hb₁, hview₁⟩ := apply_within hapart hb hop
    obtain ⟨hb', hview'⟩ := ih hb₁ hops
    exact ⟨hb', fun s p => by rw [run_cons, hview', hview₁]; rfl⟩

theorem Op.Within.mono {prices' : Side → D → Prop} (h : op.Within prices) (hle : ∀ s p, prices s p → prices' s p) :
    op.Within prices' := by
  cases op with
  | updateBid | updateAsk | removeBid | removeAsk => exact hle _ _ h
  | setSnapshot | clear => exact h.elim

end OrderBook

/-- A delta at the prices. -/
def MarketEvent.Within {D : Type} (prices : Side → D → Prop) : MarketEvent D → Prop
  | .snapshot _ => False
  | .delta d => (∀ u ∈ d.bidUpdates, prices .bid u.1) ∧ ∀ u ∈ d.askUpdates, prices .ask u.1

theorem MarketEvent.writes_within {D : Type} [Field D] [LinearOrder D] {prices : Side → D → Prop} {ev : MarketEvent D}
    (h : ev.Within prices) : ∀ op ∈ ev.writes, op.Within prices := by
  cases ev with
  | snapshot s => exact h.elim
  | delta d =>
    intro op hop
    rcases List.mem_append.1 hop with hop | hop
    · obtain ⟨u, hu, rfl⟩ := List.mem_map.1 hop
      have hprice := h.1 u hu
      split <;> exact hprice
    · obtain ⟨u, hu, rfl⟩ := List.mem_map.1 hop
      have hprice := h.2 u hu
      split <;> exact hprice

/-! ## The territories of the threads -/

/-- Each thread has prices of its own, and the bids of all are below the asks of all. -/
structure Territories {T D : Type} [LinearOrder D] (prices : T → Side → D → Prop) : Prop where
  own : ∀ i j s p, prices i s p → prices j s p → i = j
  apart : OrderBook.Apart fun s p => ∃ i, prices i s p

namespace Parallel

variable {T D : Type} [LinearOrder D]

/-- Called for the symbol, a thread handles deltas at its prices. -/
def Event.KeepsTo (x : String) (prices : T → Side → D → Prop) : Event T D → Prop
  | .session (.call i _ ev) => ev.symbol = x → ev.Within (prices i)
  | _ => True

/-- The writes that the thread still has to make on the book. -/
def pending (s : Parallel T D) (i : T) (r : ℕ) : List (OrderBook.Op D) :=
  match s.task i with
  | some t => if t.orderBook = r then t.writes else []
  | none => []

open OrderBook in
/-- What a thread will have made of its levels of the symbol's book is what the serial engine has there. -/
structure Shares (x : String) (prices : T → Side → D → Prop) (s : Parallel T D) (e : MarketDataEngine T D) : Prop where
  running : s.running = e.running
  pointer : ∀ y r, s.orderBooks y = some r → ∃ b, s.made[r]? = some (y, b)
  task : ∀ i t, s.task i = some t → ∃ y b, s.made[t.orderBook]? = some (y, b) ∧
    (y = x → ∀ op ∈ t.writes, op.Within (prices i))
  within : ∀ b : OrderBook D, (x, b) ∈ s.made → b.Within fun side p => ∃ i, prices i side p
  unknown : s.orderBooks x = none → e.orderBooks x = none
  book : ∀ r b, s.orderBooks x = some r → s.made[r]? = some (x, b) → ∃ c, e.orderBooks x = some c ∧
    c.Within (fun side p => ∃ i, prices i side p) ∧
    ∀ i side p, prices i side p → changed side p (s.pending i r) (b.view side p) = c.view side p

variable {x : String} {prices : T → Side → D → Prop} {s s' : Parallel T D} {e e' : MarketDataEngine T D}

theorem ready_shares : (ready : Parallel T D).Shares x prices .constructed :=
  ⟨rfl, nofun, nofun, nofun, fun _ => rfl, nofun⟩

theorem pending_of_ne {i : T} {r : ℕ} (h : ∀ t, s.task i = some t → t.orderBook ≠ r) : s.pending i r = [] := by
  unfold pending
  split
  · next t ht => exact if_neg (h t ht)
  · rfl

theorem pending_of_task {i : T} {t : Task D} (h : s.task i = some t) : s.pending i t.orderBook = t.writes := by
  rw [pending, h]
  exact if_pos rfl

/-- A step that leaves the books and the pointers as they are, and to each thread what it has to write. -/
theorem Shares.still (h : s.Shares x prices e) (hm : s'.made = s.made) (ho : s'.orderBooks = s.orderBooks)
    (ht : ∀ i t', s'.task i = some t' → ∃ t, s.task i = some t ∧ t'.orderBook = t.orderBook ∧ t'.writes = t.writes)
    (hp : ∀ i r, s'.pending i r = s.pending i r) (hr : s'.running = e'.running)
    (he : e'.orderBooks x = e.orderBooks x) : s'.Shares x prices e' := by
  refine ⟨hr, ?_, fun i t' hi => ?_, ?_, ?_, ?_⟩
  · rw [hm, ho]
    exact h.pointer
  · obtain ⟨t, hti, hbook, hwrites⟩ := ht i t' hi
    rw [hm, hbook, hwrites]
    exact h.task i t hti
  · rw [hm]
    exact h.within
  · rw [ho, he]
    exact h.unknown
  · rw [ho, hm, he]
    simp only [hp]
    exact h.book

theorem Shares.task_made (h : s.Shares x prices e) {i : T} {t : Task D} (ht : s.task i = some t) :
    t.orderBook < s.made.length := by
  obtain ⟨y, b, hb, -⟩ := h.task i t ht
  exact (List.getElem?_eq_some_iff.1 hb).1

/-- A fresh book. -/
theorem Shares.make (h : s.Shares x prices e) (y : String) : (s.make y).Shares x prices
    { e with orderBooks := Function.update e.orderBooks y (some .empty) } := by
  have hold : ∀ {r : ℕ} {z : String} {b : OrderBook D}, s.made[r]? = some (z, b) → (s.make y).made[r]? = some (z, b) := by
    intro r z b hb
    exact (List.getElem?_append_left (List.getElem?_eq_some_iff.1 hb).1).trans hb
  have hnew : (s.make y).made[s.made.length]? = some (y, .empty) := List.getElem?_concat_length
  refine ⟨h.running, fun z r hz => ?_, fun i t ht => ?_, fun b hb => ?_, fun hnone => ?_, fun r b hr hb => ?_⟩
  · by_cases hzy : z = y
    · subst hzy
      rw [make_orderBooks_self] at hz
      cases hz
      exact ⟨_, hnew⟩
    · rw [make_orderBooks_ne s hzy] at hz
      obtain ⟨b, hb⟩ := h.pointer z r hz
      exact ⟨b, hold hb⟩
  · obtain ⟨z, b, hb, hwithin⟩ := h.task i t ht
    exact ⟨z, b, hold hb, hwithin⟩
  · rcases List.mem_append.1 hb with hm | hm
    · exact h.within b hm
    · cases List.mem_singleton.1 hm
      exact OrderBook.empty_within
  · by_cases hxy : x = y
    · subst hxy
      rw [make_orderBooks_self] at hnone
      cases hnone
    · rw [make_orderBooks_ne s hxy] at hnone
      exact (Function.update_of_ne hxy ..).trans (h.unknown hnone)
  · by_cases hxy : x = y
    · subst hxy
      rw [make_orderBooks_self] at hr
      cases hr
      cases hnew.symm.trans hb
      refine ⟨.empty, Function.update_self .., OrderBook.empty_within, fun i side p _ => ?_⟩
      have hpending : (s.make x).pending i s.made.length = [] := pending_of_ne fun t ht => (h.task_made ht).ne
      rw [hpending]
      rfl
    · rw [make_orderBooks_ne s hxy] at hr
      obtain ⟨b', hb'⟩ := h.pointer x r hr
      cases (hold hb').symm.trans hb
      obtain ⟨c, hc, hwithin, hview⟩ := h.book r b hr hb'
      exact ⟨c, (Function.update_of_ne hxy ..).trans hc, hwithin, hview⟩

theorem Shares.initializeEngine (h : s.Shares x prices e) (hr : s.running = false) (symbols : List String) :
    Shares x prices { symbols.foldl Parallel.make s with running := true, dispatcher := .test }
      (e.initializeEngine symbols) := by
  have hmake : ∀ {s : Parallel T D} {e : MarketDataEngine T D}, s.Shares x prices e →
      (symbols.foldl Parallel.make s).Shares x prices { e with
        orderBooks := symbols.foldl (fun books symbol => Function.update books symbol (some .empty)) e.orderBooks } := by
    induction symbols with
    | nil => exact id
    | cons y symbols ih => exact fun h => ih (h.make y)
  have hrun : e.running = false := h.running.symm.trans hr
  simp only [MarketDataEngine.initializeEngine, hrun, Bool.false_eq_true, ↓reduceIte]
  obtain ⟨-, hpointer, htask, hwithin, hunknown, hbook⟩ := hmake h
  exact ⟨rfl, hpointer, htask, hwithin, hunknown, hbook⟩

theorem pending_congr {i : T} (h : s'.task i = s.task i) (r : ℕ) : s'.pending i r = s.pending i r := by
  rw [pending, pending, h]

section Steps

variable [DecidableEq T]

/-- On a book that is not the one of the thread whose task changes. -/
theorem pending_update_ne {i : T} {t' : Option (Task D)} {r : ℕ} (hs' : s'.task = Function.update s.task i t')
    (hold : ∀ t, s.task i = some t → t.orderBook ≠ r) (hnew : ∀ t, t' = some t → t.orderBook ≠ r) (j : T) :
    s'.pending j r = s.pending j r := by
  by_cases hji : j = i
  · subst hji
    have htask : s'.task j = t' := hs' ▸ Function.update_self ..
    rw [pending_of_ne hold, pending_of_ne fun t ht => hnew t (htask.symm.trans ht)]
  · exact pending_congr (hs' ▸ Function.update_of_ne hji ..) r

/-- A thread writes an entry: its own levels are one step further, and nobody else's change. -/
theorem Shares.write (hprices : Territories prices) (h : s.Shares x prices e) {i : T} {r : ℕ} {op : OrderBook.Op D}
    {writes : List (OrderBook.Op D)} {reads : Reader (OrderBook D) D (MarketUpdate D)}
    (ht : s.task i = some ⟨r, op :: writes, reads⟩) :
    Shares x prices { s with
      made := s.made.modify r fun b => (b.1, b.2.apply op)
      task := Function.update s.task i (some ⟨r, writes, reads⟩) } e := by
  set s' : Parallel T D := { s with
    made := s.made.modify r fun b => (b.1, b.2.apply op)
    task := Function.update s.task i (some ⟨r, writes, reads⟩) } with hs'
  obtain ⟨y₀, b₀, hb₀, hops⟩ := h.task i _ ht
  have hmade : s'.made[r]? = some (y₀, b₀.apply op) := by
    rw [hs', List.getElem?_modify_eq, hb₀]
    rfl
  have hmade_ne : ∀ r', r ≠ r' → s'.made[r']? = s.made[r']? := fun r' hr => List.getElem?_modify_ne _ _ hr
  have htask : s'.task i = some ⟨r, writes, reads⟩ := Function.update_self ..
  have htask_ne : ∀ j, j ≠ i → s'.task j = s.task j := fun j hj => Function.update_of_ne hj ..
  have hentry : ∀ {r' : ℕ} {z : String} {b : OrderBook D}, s.made[r']? = some (z, b) →
      ∃ b', s'.made[r']? = some (z, b') := by
    intro r' z b hb
    by_cases hr : r = r'
    · subst hr
      cases hb₀.symm.trans hb
      exact ⟨_, hmade⟩
    · exact ⟨b, (hmade_ne r' hr).trans hb⟩
  -- the entry, in a book of the symbol
  have hwritten : y₀ = x → (b₀.apply op).Within (fun side p => ∃ i, prices i side p) ∧
      ∀ side p, (b₀.apply op).view side p = (op.change side p).apply (b₀.view side p) := by
    rintro rfl
    have hop : op.Within (prices i) := hops rfl op List.mem_cons_self
    exact OrderBook.apply_within hprices.apart (h.within b₀ (List.mem_of_getElem? hb₀)) (hop.mono fun _ _ hp => ⟨i, hp⟩)
  refine ⟨h.running, fun z r' hz => ?_, fun j t hj => ?_, fun b hb => ?_, h.unknown, fun r' b hr' hb => ?_⟩
  · obtain ⟨b, hb⟩ := h.pointer z r' hz
    exact hentry hb
  · by_cases hji : j = i
    · subst hji
      cases htask.symm.trans hj
      exact ⟨y₀, _, hmade, fun hy op' hop' => hops hy op' (List.mem_cons_of_mem _ hop')⟩
    · rw [htask_ne j hji] at hj
      obtain ⟨z, b, hb, hwithin⟩ := h.task j t hj
      obtain ⟨b', hb'⟩ := hentry hb
      exact ⟨z, b', hb', hwithin⟩
  · obtain ⟨r', hr'⟩ := List.mem_iff_getElem?.1 hb
    by_cases hr : r = r'
    · subst hr
      cases hmade.symm.trans hr'
      exact (hwritten rfl).1
    · rw [hmade_ne r' hr] at hr'
      exact h.within b (List.mem_of_getElem? hr')
  · by_cases hr : r = r'
    · subst hr
      cases hmade.symm.trans hb
      obtain ⟨c, hc, hwithin, hview⟩ := h.book r b₀ hr' hb₀
      refine ⟨c, hc, hwithin, fun j side p hp => ?_⟩
      rw [← hview j side p hp, (hwritten rfl).2]
      by_cases hji : j = i
      · subst hji
        rw [pending_of_task htask, pending_of_task ht]
        rfl
      · have hnot : ¬ prices i side p := fun hpi => hji (hprices.own j i side p hp hpi)
        rw [pending_congr (htask_ne j hji), op.change_of_not (hops rfl op List.mem_cons_self) hnot]
        rfl
    · rw [hmade_ne r' hr] at hb
      obtain ⟨c, hc, hwithin, hview⟩ := h.book r' b hr' hb
      refine ⟨c, hc, hwithin, fun j side p hp => ?_⟩
      have hpending : s'.pending j r' = s.pending j r' := by
        refine pending_update_ne rfl (fun t hj => ?_) (fun t hj => ?_) j
        · cases ht.symm.trans hj
          exact hr
        · cases hj
          exact hr
      rw [hpending, hview j side p hp]

variable [Field D]

omit [DecidableEq T] in
theorem callback_running (e : MarketDataEngine T D) (uninit : MarketUpdate D) (i : T) (ev : MarketEvent D) :
    (e.callback uninit i ev).running = e.running := by
  cases hb : e.orderBooks ev.symbol with
  | none => rw [MarketDataEngine.callback_unknown hb]
  | some b => rw [MarketDataEngine.callback_known hb]

omit [DecidableEq T] in
/-- A call that finds no book. -/
theorem Shares.ignored (h : s.Shares x prices e) (i : T) (uninit : MarketUpdate D) {ev : MarketEvent D}
    (hnone : s.orderBooks ev.symbol = none) : s.Shares x prices (e.callback uninit i ev) := by
  refine h.still rfl rfl (fun _ t ht => ⟨t, ht, rfl, rfl⟩) (fun _ _ => rfl) ?_ ?_
  · rw [callback_running]
    exact h.running
  · rw [MarketDataEngine.callback_orderBooks]
    split
    · next hx => rw [h.unknown (hx ▸ hnone), Option.map_none]
    · rfl

/-- A call: its entries are what the thread has to write from here on. -/
theorem Shares.call (hprices : Territories prices) (h : s.Shares x prices e) {i : T} (uninit : MarketUpdate D)
    {ev : MarketEvent D} {r : ℕ} (ht : s.task i = none) (hr : s.orderBooks ev.symbol = some r)
    (hev : ev.symbol = x → ev.Within (prices i)) :
    Shares x prices { s with task := Function.update s.task i (some ⟨r, ev.writes, ev.reads uninit⟩) }
      (e.callback uninit i ev) := by
  set s' : Parallel T D := { s with
    task := Function.update s.task i (some ⟨r, ev.writes, ev.reads uninit⟩) } with hs'
  obtain ⟨b₀, hb₀⟩ := h.pointer _ r hr
  have htask : s'.task i = some ⟨r, ev.writes, ev.reads uninit⟩ := Function.update_self ..
  have htask_ne : ∀ j, j ≠ i → s'.task j = s.task j := fun j hj => Function.update_of_ne hj ..
  refine ⟨?_, h.pointer, fun j t hj => ?_, h.within, fun hnone => ?_, fun r' b hr' hb => ?_⟩
  · rw [callback_running]
    exact h.running
  · by_cases hji : j = i
    · subst hji
      cases htask.symm.trans hj
      exact ⟨_, b₀, hb₀, fun hx => MarketEvent.writes_within (hev hx)⟩
    · rw [htask_ne j hji] at hj
      exact h.task j t hj
  · rw [MarketDataEngine.callback_orderBooks, h.unknown hnone]
    simp
  · obtain ⟨c, hc, hwithin, hview⟩ := h.book r' b hr' hb
    rw [MarketDataEngine.callback_orderBooks]
    by_cases hx : ev.symbol = x
    · subst hx
      cases hr.symm.trans hr'
      have hwrites := MarketEvent.writes_within (hev rfl)
      obtain ⟨hwithin', hview'⟩ := OrderBook.run_within hprices.apart hwithin fun op hop =>
        (hwrites op hop).mono fun _ _ hp => ⟨i, hp⟩
      rw [MarketEvent.run_writes] at hwithin' hview'
      refine ⟨ev.book c, by rw [if_pos rfl, hc]; rfl, hwithin', fun j side p hp => ?_⟩
      rw [hview', ← hview j side p hp]
      by_cases hji : j = i
      · subst hji
        rw [pending_of_task htask, pending_of_ne fun t hj => by rw [ht] at hj; cases hj]
        rfl
      · have hnot : ¬ prices i side p := fun hpi => hji (hprices.own j i side p hp hpi)
        rw [pending_congr (htask_ne j hji), OrderBook.changed_of_not hwrites hnot]
    · refine ⟨c, by rw [if_neg (Ne.symm hx), hc], hwithin, fun j side p hp => ?_⟩
      have hne : r ≠ r' := by
        rintro rfl
        cases hb₀.symm.trans hb
        exact hx rfl
      have hpending : s'.pending j r' = s.pending j r' := by
        refine pending_update_ne rfl (fun t hj => ?_) (fun t hj => ?_) j
        · rw [ht] at hj
          cases hj
        · cases hj
          exact hne
      rw [hpending, hview j side p hp]

omit [Field D] in
/-- A step of one thread after which it has the same entries to write, on the same book, or none and no task. -/
theorem Shares.turn (h : s.Shares x prices e) {i : T} {t : Task D} {t' : Option (Task D)} (ht : s.task i = some t)
    (hsome : ∀ t₁, t' = some t₁ → t₁.orderBook = t.orderBook ∧ t₁.writes = t.writes)
    (hnone : t' = none → t.writes = []) (queue enqueued : List (T × MarketUpdate D)) :
    Shares x prices { s with
      updateQueue := queue, task := Function.update s.task i t', enqueued := enqueued } e := by
  refine h.still rfl rfl (fun j t₁ hj => ?_) (fun j r => ?_) h.running rfl
  · by_cases hji : j = i
    · subst hji
      have heq : t' = some t₁ := (Function.update_self j t' s.task).symm.trans hj
      exact ⟨t, ht, hsome t₁ heq⟩
    · exact ⟨t₁, (Function.update_of_ne hji ..).symm.trans hj, rfl, rfl⟩
  · by_cases hji : j = i
    · subst hji
      simp only [pending, Function.update_self, ht]
      cases t' with
      | none => simp [hnone rfl]
      | some t₁ => simp only [(hsome t₁ rfl).1, (hsome t₁ rfl).2]
    · exact pending_congr (Function.update_of_ne hji ..) r

/-- **A step** of the concurrent engine, and the step of the serial one, if it has one. -/
theorem step_shares (hprices : Territories prices) (h : s.Shares x prices e) {ev : Event T D}
    (hev : ev.KeepsTo x prices) (hs : step s ev = some s') :
    s'.Shares x prices (ev.session?.elim e (Session.serial e)) := by
  have hkeep : ∀ {queue : List (T × MarketUpdate D)} {d : Dispatcher T D} {stopping : Bool}
      {delivered : List (T × MarketUpdate D)}, Shares x prices { s with
        updateQueue := queue, dispatcher := d, stopping := stopping, delivered := delivered } e :=
    h.still rfl rfl (fun _ t ht => ⟨t, ht, rfl, rfl⟩) (fun _ _ => rfl) h.running rfl
  cases ev with
  | work i =>
    rw [step] at hs
    split at hs
    · next r op writes reads ht => cases hs; exact h.write hprices ht
    · next r q k ht =>
      obtain ⟨b, -, rfl⟩ := Option.map_eq_some_iff.1 hs
      exact h.turn ht (fun t₁ heq => by cases heq; exact ⟨rfl, rfl⟩) (fun heq => by cases heq) _ _
    · cases hs
  | session ev =>
    cases ev with
    | initializeEngine symbols =>
      rw [step] at hs
      split at hs
      · cases hs
      · split at hs
        · next hr =>
          cases hs
          have hrun : e.running = true := h.running.symm.trans hr
          simp only [Event.session?, Option.elim, Session.serial, MarketDataEngine.initializeEngine, hrun, ↓reduceIte]
          exact h
        · next hr => cases hs; exact h.initializeEngine (Bool.not_eq_true _ ▸ hr) symbols
    | call i uninit ev =>
      rw [step] at hs
      split at hs
      · cases hs
      · next ht hr => cases hs; exact h.ignored i uninit hr
      · next r ht hr => cases hs; exact h.call hprices uninit ht hr hev
    | enqueue i =>
      rw [step] at hs
      split at hs
      · next r update ht => cases hs; exact h.turn ht (fun t₁ heq => by cases heq) (fun _ => rfl) _ _
      · cases hs
    | test | dequeue | miss | deliver =>
      rw [step] at hs
      split at hs <;> cases hs
      exact hkeep
    | stop =>
      rw [step] at hs
      split at hs
      · cases hs; exact h.still rfl rfl (fun _ t ht => ⟨t, ht, rfl, rfl⟩) (fun _ _ => rfl) rfl rfl
      · next hr =>
        cases hs
        exact h.still rfl rfl (fun _ t ht => ⟨t, ht, rfl, rfl⟩) (fun _ _ => rfl) (Bool.not_eq_true _ ▸ hr) rfl
    | stopReturns =>
      rw [step] at hs
      split at hs <;> cases hs
      exact hkeep

theorem run_shares (hprices : Territories prices) {es : List (Event T D)} (h : Run step s es s')
    (hs : s.Shares x prices e) (hes : ∀ ev ∈ es, ev.KeepsTo x prices) :
    s'.Shares x prices ((es.filterMap Event.session?).foldl Session.serial e) := by
  induction h generalizing e with
  | nil => exact hs
  | @cons s s₁ s' ev es hst _ ih =>
    obtain ⟨hev, hes⟩ := List.forall_mem_cons.1 hes
    have hrest := ih (step_shares hprices hs hev hst) hes
    cases hev' : ev.session? with
    | none =>
      rw [List.filterMap_cons_none hev']
      rwa [hev'] at hrest
    | some ev' =>
      rw [List.filterMap_cons_some hev']
      rwa [hev'] at hrest

/-- **A shared symbol**: when the threads that are called for a symbol handle deltas, each at prices of its own and all
bids below all asks, then whenever no call is under way the book of the symbol is that of the serial engine. -/
theorem run_shared (hprices : Territories prices) {es : List (Event T D)} (h : Run step ready es s)
    (hes : ∀ ev ∈ es, ev.KeepsTo x prices) (hquiet : ∀ i, s.task i = none) :
    s.getOrderBook x =
      ((es.filterMap Event.session?).foldl Session.serial MarketDataEngine.constructed).getOrderBook x := by
  have hs := run_shares hprices h ready_shares hes
  cases hr : s.orderBooks x with
  | none =>
    rw [getOrderBook, hr, MarketDataEngine.getOrderBook, hs.unknown hr]
    rfl
  | some r =>
    obtain ⟨b, hb⟩ := hs.pointer x r hr
    obtain ⟨c, hc, hwithin, hview⟩ := hs.book r b hr hb
    rw [getOrderBook, hr, Option.bind_some, hb, MarketDataEngine.getOrderBook, hc, Option.map_some]
    congr 1
    refine view_injective (funext fun side => funext fun p => ?_)
    by_cases hp : ∃ i, prices i side p
    · obtain ⟨i, hi⟩ := hp
      rw [← hview i side p hi, pending_of_ne fun t ht => by rw [hquiet] at ht; cases ht]
      rfl
    · have hout : ∀ {b : OrderBook D}, b.Within (fun side p => ∃ i, prices i side p) → b.view side p = none :=
        fun hb => Option.eq_none_iff_forall_ne_some.2 fun v hv => hp (hb side p v hv)
      rw [hout (hs.within b (List.mem_of_getElem? hb)), hout hwithin]

section Example

def askTick : MarketEvent ℚ := .delta ⟨"BTC-USD", [], [(102, 2)], 8⟩

/-- Two threads of one symbol, one for its bid and one for its ask. -/
def touchPrices (i : ℕ) (side : Side) (p : ℚ) : Prop := (i = 0 ∧ side = .bid ∧ p = 100) ∨ (i = 1 ∧ side = .ask ∧ p = 102)

theorem touchPrices_territories : Territories touchPrices := by
  constructor
  · rintro i j side p (⟨rfl, rfl, -⟩ | ⟨rfl, rfl, -⟩) (⟨rfl, hside, -⟩ | ⟨rfl, hside, -⟩)
    · rfl
    · cases hside
    · cases hside
    · rfl
  · rintro p q ⟨i, hp | hp⟩ ⟨j, hq | hq⟩
    · cases hq.2.1
    · rw [hp.2.2, hq.2.2]
      decide +kernel
    · cases hp.2.1
    · cases hp.2.1

def sharedTurns : List (Event ℕ ℚ) :=
  [.session (.initializeEngine ["BTC-USD"]), .session (.call 0 noUpdate coinbaseTick),
    .session (.call 1 noUpdate askTick), .work 1, .work 0, .work 0, .work 1, .work 1, .work 0, .work 1, .work 1,
    .session (.enqueue 1), .work 0, .work 0, .session (.enqueue 0)]

theorem sharedTurns_getOrderBook : ∃ s : Parallel ℕ ℚ, Run step ready sharedTurns s ∧
    s.getOrderBook "BTC-USD" = some (askTick.book (coinbaseTick.book .empty)) := by
  have hrun : ∃ s : Parallel ℕ ℚ, Run step ready sharedTurns s ∧ ∀ i, s.task i = none := by
    refine ⟨_, run_iff_exec.2 rfl, fun i => ?_⟩
    rcases i with _ | _ | i <;> rfl
  obtain ⟨s, hs, hquiet⟩ := hrun
  have hkeeps : ∀ ev ∈ sharedTurns, ev.KeepsTo "BTC-USD" touchPrices := by
    simp [sharedTurns, Event.KeepsTo, MarketEvent.Within, coinbaseTick, askTick, touchPrices]
  refine ⟨s, hs, (run_shared touchPrices_territories hs hkeeps hquiet).trans ?_⟩
  decide +kernel

end Example

end Steps

end Parallel

end CryptoHft
