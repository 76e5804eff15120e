import CryptoHft.Exchanges.MockExchangeAdapter
import CryptoHft.Lib.Machine
import Mathlib

/-!
# The execution reports of the mock exchange

An order goes through its life in one of a few ways (`Lifecycle`): it waits for its thread, and is filled; or it is
cancelled, and then the thread, if it is still to come, reports it as new and as cancelled once more. As the thread
keeps the mutex from the first report to the last, a cancel never comes between them.

So the reports of every order begin with the one that it is new, and end with its end, exactly when no cancel comes
before the thread; and a cancel returns true only where it cancels, exactly when it is not repeated (`run_reports_iff`).
-/

namespace CryptoHft

open Machine

namespace MockExchangeAdapter

variable {D : Type} {s s' : MockExchangeAdapter D} {id id' : String}

/-- The reports that reach a callback. -/
def sent (executionCallback : Bool) (statuses : List OrderStatus) : List OrderStatus :=
  if executionCallback then statuses else []

/-! ## Views -/

theorem orderId_injective : Function.Injective orderId := by
  intro m n h
  exact Nat.repr_injective ((String.append_right_inj "MOCK_").1 h)

theorem status_of_view {v : Option OrderStatus × Nat × List OrderStatus} (h : s.view id = v) : s.status id = v.1 :=
  congrArg Prod.fst h

theorem view_setOrder (order : OrderState D) :
    (s.setOrder id' order).view id =
      if id = id' then (some order.status, s.threads.count id, s.reportsOf id) else s.view id := by
  unfold view status setOrder
  split
  · next h => subst h; simp [reportsOf]
  · next h => simp [h, reportsOf]

@[simp] theorem executionCallback_setOrder (order : OrderState D) :
    (s.setOrder id order).executionCallback = s.executionCallback := rfl

theorem reportsOf_report (response : OrderResponse D) :
    (s.report response).reportsOf id =
      s.reportsOf id ++ if response.orderId = id then sent s.executionCallback [response.status] else [] := by
  unfold report sent reportsOf
  cases s.executionCallback with
  | false => simp
  | true => by_cases h : response.orderId = id <;> simp [h]

@[simp] theorem orders_report (response : OrderResponse D) : (s.report response).orders = s.orders := by
  unfold report
  split <;> rfl

@[simp] theorem threads_report (response : OrderResponse D) : (s.report response).threads = s.threads := by
  unfold report
  split <;> rfl

@[simp] theorem executionCallback_report (response : OrderResponse D) :
    (s.report response).executionCallback = s.executionCallback := by
  unfold report
  split <;> rfl

@[simp] theorem orderCounter_report (response : OrderResponse D) :
    (s.report response).orderCounter = s.orderCounter := by
  unfold report
  split <;> rfl

theorem view_report (response : OrderResponse D) :
    (s.report response).view id = ((s.view id).1, (s.view id).2.1, (s.view id).2.2 ++
      if response.orderId = id then sent s.executionCallback [response.status] else []) := by
  simp only [view, status, orders_report, threads_report, reportsOf_report]

theorem view_submitOrder [Zero D] (h : s.connected = true) (request : OrderRequest D) :
    (s.submitOrder request).1.view id =
      if id = orderId (s.orderCounter + 1) then (some .NEW, s.threads.count id + 1, s.reportsOf id) else s.view id := by
  simp only [submitOrder, if_pos h, view_setOrder]
  split
  · next hid => subst hid; simp [reportsOf]
  · next hid => simp [view, status, reportsOf, Ne.symm hid]

/-- The order is there and not filled, and the adapter connected. -/
def Cancels (s : MockExchangeAdapter D) (id : String) : Prop :=
  s.connected = true ∧ ∃ st, s.status id = some st ∧ st ≠ .FILLED

theorem cancelOrder_of_cancels (h : s.Cancels id') (now : Int) : (s.cancelOrder now id').2 = true ∧
    ∀ id, (s.cancelOrder now id').1.view id =
      if id = id' then
        (some .CANCELED, s.threads.count id, s.reportsOf id ++ sent s.executionCallback [.CANCELED])
      else s.view id := by
  obtain ⟨hc, st, hst, hne⟩ := h
  obtain ⟨order, ho, rfl⟩ := Option.map_eq_some_iff.1 hst
  simp only [cancelOrder, if_pos hc, ho, if_pos hne, true_and]
  intro id
  rw [view_report, view_setOrder]
  split
  · next hid => subst hid; simp [setOrder]
  · next hid => simp [Ne.symm hid]

theorem cancelOrder_of_not_cancels (h : ¬ s.Cancels id') (now : Int) : s.cancelOrder now id' = (s, false) := by
  unfold cancelOrder
  split
  · next hc =>
    split
    · rfl
    · next order ho =>
      split
      · next hne => exact absurd ⟨hc, order.status, by rw [status, ho]; rfl, hne⟩ h
      · rfl
  · rfl

theorem view_modifyOrder (newPrice newSize : D) : (s.modifyOrder id' newPrice newSize).1.view id = s.view id := by
  unfold modifyOrder
  split
  · split
    · rfl
    · next order ho =>
      rw [view_setOrder]
      split
      · next hid => subst hid; simp [view, status, ho]
      · rfl
  · rfl

/-- What the thread of an order does to it. -/
theorem view_simulateOrderExecution [Zero D] {st : OrderStatus} (h : s.status id' = some st) (now later : Int) :
    (s.simulateOrderExecution now later id').view id =
      if id = id' then
        (some (if st = .CANCELED then .CANCELED else .FILLED), s.threads.count id, s.reportsOf id ++
          sent s.executionCallback [.NEW, if st = .CANCELED then .CANCELED else .FILLED])
      else s.view id := by
  obtain ⟨order, ho, rfl⟩ := Option.map_eq_some_iff.1 h
  have hsent : ∀ st, sent s.executionCallback [.NEW] ++ sent s.executionCallback [st] =
      sent s.executionCallback [.NEW, st] := by
    intro st
    unfold sent
    split <;> rfl
  by_cases hcanceled : order.status = .CANCELED
  · simp only [simulateOrderExecution, ho, if_pos hcanceled, view_report, executionCallback_report]
    by_cases hid : id = id'
    · subst hid
      simp only [↓reduceIte, List.append_assoc, hsent, view, h, hcanceled]
    · simp only [if_neg hid, if_neg (Ne.symm hid), List.append_nil]
  · simp only [simulateOrderExecution, ho, if_neg hcanceled, view_report, view_setOrder, reportsOf_report, threads_report,
      executionCallback_setOrder, executionCallback_report]
    by_cases hid : id = id'
    · subst hid
      simp only [↓reduceIte, List.append_assoc, hsent]
    · simp only [if_neg hid, if_neg (Ne.symm hid), List.append_nil]

/-! ## The life of an order -/

/-- What an adapter may have of an order, with or without a callback. -/
inductive Lifecycle (executionCallback : Bool) : Option OrderStatus × Nat × List OrderStatus → Prop
  | unknown : Lifecycle executionCallback (none, 0, [])
  | waiting : Lifecycle executionCallback (some .NEW, 1, [])
  | canceled {n : Nat} {rs : List OrderStatus} (hsent : executionCallback = true → rs.head? = some .CANCELED)
      (hnone : executionCallback = false → rs = []) : Lifecycle executionCallback (some .CANCELED, n, rs)
  | filled : Lifecycle executionCallback (some .FILLED, 0, sent executionCallback [.NEW, .FILLED])

/-- The report that the order is new, and then one that it is filled or cancelled; or the beginning of this. -/
def WellReported (rs : List OrderStatus) : Prop := rs <+: [.NEW, .FILLED] ∨ rs <+: [.NEW, .CANCELED]

instance (rs : List OrderStatus) : Decidable (WellReported rs) := inferInstanceAs (Decidable (_ ∨ _))

variable {executionCallback : Bool} {st : OrderStatus} {n : Nat} {rs : List OrderStatus}

/-- Only the reports of a cancelled order can be wrong. -/
theorem Lifecycle.wellReported_iff {v : Option OrderStatus × Nat × List OrderStatus} (h : Lifecycle executionCallback v) :
    WellReported v.2.2 ↔ (executionCallback = true → v.1 ≠ some .CANCELED) := by
  cases h with
  | unknown | waiting => exact iff_of_true (.inl List.nil_prefix) fun _ => by simp
  | canceled hsent hnone =>
    cases executionCallback with
    | false => exact iff_of_true (.inl (hnone rfl ▸ List.nil_prefix)) (by simp)
    | true =>
      refine iff_of_false ?_ (by simp)
      obtain ⟨rest, rfl⟩ := List.head?_eq_some_iff.1 (hsent rfl)
      rintro (h | h) <;> cases (List.cons_prefix_cons.1 h).1
  | filled =>
    refine iff_of_true ?_ fun _ => by simp
    cases executionCallback <;> decide

/-- Whatever is reported of a cancelled order. -/
theorem Lifecycle.report (hsent : executionCallback = true → rs.head? = some .CANCELED)
    (hnone : executionCallback = false → rs = []) (more : List OrderStatus) :
    Lifecycle executionCallback (some .CANCELED, n, rs ++ sent executionCallback more) := by
  refine .canceled (fun hc => ?_) fun hc => ?_
  · rw [List.head?_append, hsent hc, Option.some_or]
  · rw [hnone hc, hc]
    rfl

/-- A cancel of an order that is not filled. -/
theorem Lifecycle.cancel (h : Lifecycle executionCallback (some st, n, rs)) (hne : st ≠ .FILLED) :
    Lifecycle executionCallback (some .CANCELED, n, rs ++ sent executionCallback [.CANCELED]) := by
  cases h with
  | waiting => cases executionCallback <;> exact .canceled (by simp [sent]) (by simp [sent])
  | canceled hsent hnone => exact .report hsent hnone [.CANCELED]
  | filled => exact absurd rfl hne

/-- The thread of an order. -/
theorem Lifecycle.execute (h : Lifecycle executionCallback (some st, n + 1, rs)) :
    Lifecycle executionCallback (some (if st = .CANCELED then .CANCELED else .FILLED), n,
      rs ++ sent executionCallback [.NEW, if st = .CANCELED then .CANCELED else .FILLED]) := by
  cases h with
  | waiting => exact .filled
  | canceled hsent hnone => exact .report hsent hnone [.NEW, .CANCELED]

/-- An order with a thread to come is there. -/
theorem Lifecycle.exists_status {v : Option OrderStatus × Nat × List OrderStatus} (h : Lifecycle executionCallback v)
    (hpos : 0 < v.2.1) : ∃ st, v.1 = some st := by
  cases h with
  | unknown => exact absurd hpos (Nat.lt_irrefl 0)
  | waiting | canceled | filled => exact ⟨_, rfl⟩

/-- The lives of all orders, and no order yet under a number to come. -/
structure Valid (s : MockExchangeAdapter D) : Prop where
  life : ∀ id, Lifecycle s.executionCallback (s.view id)
  fresh : ∀ n, s.orderCounter < n → s.status (orderId n) = none

theorem constructed_valid (executionCallback : Bool) (n : Nat) :
    (constructed executionCallback n : MockExchangeAdapter D).Valid := ⟨fun _ => .unknown, fun _ _ => rfl⟩

/-! ## Steps

Only a submission counts, and nothing changes the callback. -/

theorem cancelOrder_keeps (now : Int) (id : String) (s : MockExchangeAdapter D) :
    (s.cancelOrder now id).1.executionCallback = s.executionCallback ∧
      (s.cancelOrder now id).1.orderCounter = s.orderCounter := by
  unfold cancelOrder
  split
  · split
    · exact ⟨rfl, rfl⟩
    · split <;> simp [setOrder]
  · exact ⟨rfl, rfl⟩

theorem modifyOrder_keeps (id : String) (newPrice newSize : D) (s : MockExchangeAdapter D) :
    (s.modifyOrder id newPrice newSize).1.executionCallback = s.executionCallback ∧
      (s.modifyOrder id newPrice newSize).1.orderCounter = s.orderCounter := by
  unfold modifyOrder
  split
  · split <;> exact ⟨rfl, rfl⟩
  · exact ⟨rfl, rfl⟩

theorem simulateOrderExecution_keeps [Zero D] (now later : Int) (id : String) (s : MockExchangeAdapter D) :
    (s.simulateOrderExecution now later id).executionCallback = s.executionCallback ∧
      (s.simulateOrderExecution now later id).orderCounter = s.orderCounter := by
  unfold simulateOrderExecution
  split
  · exact ⟨rfl, rfl⟩
  · dsimp only
    split <;> simp [setOrder]

/-- The views after the thread of an order took the mutex. -/
theorem view_executes [Zero D] (h : s.Valid) (hmem : id' ∈ s.threads) (now later : Int) :
    ∃ st n, s.view id' = (some st, n + 1, s.reportsOf id') ∧ ∀ id,
      ({ s with threads := s.threads.erase id' }.simulateOrderExecution now later id').view id =
        if id = id' then
          (some (if st = .CANCELED then .CANCELED else .FILLED), n, s.reportsOf id' ++
            sent s.executionCallback [.NEW, if st = .CANCELED then .CANCELED else .FILLED])
        else s.view id := by
  obtain ⟨n, hn⟩ := Nat.exists_eq_add_one_of_ne_zero (List.count_pos_iff.2 hmem).ne'
  obtain ⟨st, hst⟩ := (h.life id').exists_status (by rw [view, hn]; exact Nat.succ_pos n)
  refine ⟨st, n, by rw [view, hn]; exact congrArg (·, n + 1, s.reportsOf id') hst, fun id => ?_⟩
  refine (view_simulateOrderExecution (s := { s with threads := s.threads.erase id' }) hst now later).trans ?_
  split
  · next hid =>
    subst hid
    rw [List.count_erase_self, hn]
    rfl
  · next hid => simp [view, status, reportsOf, List.count_erase_of_ne hid]

/-- The cancel, if its reports are sent, changes nothing. -/
def ChangesNothing (s : MockExchangeAdapter D) : Event D → Prop
  | .cancelOrder _ id => s.executionCallback = true → ¬ s.Cancels id
  | _ => True

/-- The step turns the view of one order into `v` and leaves all others alone. -/
structure Moves (s : MockExchangeAdapter D) (e : Event D) (s' : MockExchangeAdapter D) (id' : String)
    (v : Option OrderStatus × Nat × List OrderStatus) : Prop where
  callback : s'.executionCallback = s.executionCallback
  view : ∀ id, s'.view id = if id = id' then v else s.view id
  life : Lifecycle s.executionCallback v
  counter : s.orderCounter ≤ s'.orderCounter
  fresh : ∀ n, s'.orderCounter < n → orderId n = id' → v.1 = none
  canceled : (s.executionCallback = true → s.status id' ≠ some .CANCELED) →
    ((s.executionCallback = true → v.1 ≠ some .CANCELED) ↔ s.ChangesNothing e)

/-- A step that changes no view moves any order, to where it is. -/
theorem Valid.still {e : Event D} (h : s.Valid) (hcb : s'.executionCallback = s.executionCallback)
    (hn : s'.orderCounter = s.orderCounter) (hview : ∀ id, s'.view id = s.view id) (hok : s.ChangesNothing e) :
    ∃ id v, Moves s e s' id v := by
  refine ⟨"", s.view "", hcb, fun id => ?_, h.life "", hn.ge, fun n hlt hid => ?_, fun hne => iff_of_true hne hok⟩
  · rw [hview]
    split
    · next hid => rw [hid]
    · rfl
  · exact hid ▸ h.fresh n (hn ▸ hlt)

theorem submitOrder_moves [Zero D] (h : s.Valid) (hc : s.connected = true) (request : OrderRequest D) :
    Moves s (.submitOrder request) (s.submitOrder request).1 (orderId (s.orderCounter + 1)) (some .NEW, 1, []) := by
  have hlife := h.life (orderId (s.orderCounter + 1))
  have hcounter : (s.submitOrder request).1.orderCounter = s.orderCounter + 1 := by simp [submitOrder, hc, setOrder]
  rw [view, h.fresh _ (Nat.lt_succ_self _)] at hlife
  refine ⟨by simp [submitOrder, hc], fun id => ?_, .waiting, by simp [hcounter], ?_, fun _ => iff_of_true (by simp) trivial⟩
  · rw [view_submitOrder hc]
    split
    · next hid =>
      subst hid
      generalize s.threads.count _ = count, s.reportsOf _ = rs at hlife ⊢
      cases hlife
      rfl
    · rfl
  · intro n hlt hid
    rw [hcounter] at hlt
    exact absurd (orderId_injective hid) hlt.ne'

theorem cancelOrder_moves (h : s.Valid) (hc : s.Cancels id') (now : Int) :
    Moves s (.cancelOrder now id') (s.cancelOrder now id').1 id'
      (some .CANCELED, s.threads.count id', s.reportsOf id' ++ sent s.executionCallback [.CANCELED]) := by
  obtain ⟨hcb, hn⟩ := cancelOrder_keeps now id' s
  obtain ⟨-, hview⟩ := cancelOrder_of_cancels hc now
  obtain ⟨st, hst, hne⟩ := hc.2
  have hlife := h.life id'
  rw [view, hst] at hlife
  refine ⟨hcb, fun id => ?_, hlife.cancel hne, hn.ge, fun n hlt hid => ?_, fun _ => ?_⟩
  · rw [hview]
    split
    · next hid => rw [hid]
    · rfl
  · rw [← hid, h.fresh n (hn ▸ hlt)] at hst
    cases hst
  · constructor
    · intro hnot hcb
      exact absurd rfl (hnot hcb)
    · intro hok hcb
      exact absurd hc (hok hcb)

theorem executes_moves [Zero D] (h : s.Valid) (hmem : id' ∈ s.threads) (now later : Int) : ∃ v,
    Moves s (.executes now later id') ({ s with threads := s.threads.erase id' }.simulateOrderExecution now later id')
      id' v := by
  obtain ⟨st, n, hview, hafter⟩ := view_executes h hmem now later
  obtain ⟨hcb, hn⟩ := simulateOrderExecution_keeps now later id' { s with threads := s.threads.erase id' }
  have hst := status_of_view hview
  have hlife := h.life id'
  rw [hview] at hlife
  refine ⟨_, hcb, hafter, hlife.execute, hn.ge, fun n hlt hid => ?_, fun hnone => iff_of_true (fun hcb => ?_) trivial⟩
  · rw [← hid, h.fresh n (hn ▸ hlt)] at hst
    cases hst
  · have hne : st ≠ .CANCELED := by
      rintro rfl
      exact hnone hcb hst
    simp [hne]

/-- **What a step does.** -/
theorem step_moves [Zero D] {e : Event D} (h : s.Valid) (hs : s.step e = some s') : ∃ id v, Moves s e s' id v := by
  cases e with
  | connect | disconnect => cases hs; exact h.still rfl rfl (fun _ => rfl) trivial
  | submitOrder request =>
    cases hs
    by_cases hc : s.connected = true
    · exact ⟨_, _, submitOrder_moves h hc request⟩
    · rw [submitOrder, if_neg hc]
      exact h.still rfl rfl (fun _ => rfl) trivial
  | cancelOrder now id =>
    cases hs
    by_cases hc : s.Cancels id
    · exact ⟨_, _, cancelOrder_moves h hc now⟩
    · rw [cancelOrder_of_not_cancels hc]
      exact h.still rfl rfl (fun _ => rfl) fun _ => hc
  | modifyOrder id newPrice newSize =>
    cases hs
    obtain ⟨hcb, hn⟩ := modifyOrder_keeps id newPrice newSize s
    exact h.still hcb hn (fun _ => view_modifyOrder newPrice newSize) trivial
  | executes now later id =>
    simp only [step] at hs
    split at hs
    · next hmem => cases hs; exact ⟨id, executes_moves h hmem now later⟩
    · cases hs

theorem step_valid [Zero D] {e : Event D} (h : s.Valid) (hs : s.step e = some s') : s'.Valid := by
  obtain ⟨id', v, hm⟩ := step_moves h hs
  refine ⟨fun id => ?_, fun n hlt => ?_⟩
  · rw [hm.callback, hm.view]
    split
    · exact hm.life
    · exact h.life id
  · rw [status_of_view (hm.view _)]
    split
    · next hid => exact hm.fresh n hlt hid
    · exact h.fresh n (hm.counter.trans_lt hlt)

/-- The reports are right exactly when no order whose reports are sent is cancelled. -/
theorem Valid.wellReported_iff (h : s.Valid) : (∀ id, WellReported (s.reportsOf id)) ↔
    (s.executionCallback = true → ∀ id, s.status id ≠ some .CANCELED) := by
  constructor
  · intro hall hcb id
    exact (h.life id).wellReported_iff.1 (hall id) hcb
  · intro hnone id
    exact (h.life id).wellReported_iff.2 fun hcb => hnone hcb id

/-- A cancel that changes an order makes the reports wrong, and nothing else does. -/
theorem step_wellReported_iff [Zero D] {e : Event D} (h : s.Valid) (hwell : ∀ id, WellReported (s.reportsOf id))
    (hs : s.step e = some s') : (∀ id, WellReported (s'.reportsOf id)) ↔ s.ChangesNothing e := by
  have hnone := h.wellReported_iff.1 hwell
  obtain ⟨id', v, hm⟩ := step_moves h hs
  rw [(step_valid h hs).wellReported_iff, hm.callback, ← hm.canceled fun hcb => hnone hcb id']
  constructor
  · intro hall hcb
    have hafter := hall hcb id'
    rwa [status_of_view (hm.view _), if_pos rfl] at hafter
  · intro hv hcb id
    rw [status_of_view (hm.view _)]
    split
    · exact hv hcb
    · exact hnone hcb id

/-! ## Runs -/

/-- The cancel returns true exactly when it is the call that makes the order CANCELED. -/
def CancelExact (s : MockExchangeAdapter D) : Event D → Prop
  | .cancelOrder now id => (s.cancelOrder now id).2 = true ↔
      s.status id ≠ some .CANCELED ∧ (s.cancelOrder now id).1.status id = some .CANCELED
  | _ => True

/-- The cancel of an order, on a connected adapter, finds it not cancelled, and filled if its reports are sent. -/
def CancelsLate (s : MockExchangeAdapter D) : Event D → Prop
  | .cancelOrder _ id => s.connected = true → ∀ st, s.status id = some st →
      st ≠ .CANCELED ∧ (s.executionCallback = true → st = .FILLED)
  | _ => True

theorem cancelExact_iff (now : Int) :
    s.CancelExact (.cancelOrder now id) ↔ (s.connected = true → s.status id ≠ some .CANCELED) := by
  simp only [CancelExact]
  by_cases hc : s.Cancels id
  · obtain ⟨hret, hview⟩ := cancelOrder_of_cancels hc now
    have hafter := status_of_view (hview id)
    rw [if_pos rfl] at hafter
    constructor
    · intro h _
      exact (h.1 hret).1
    · intro h
      exact iff_of_true hret ⟨h hc.1, hafter⟩
  · rw [cancelOrder_of_not_cancels hc]
    refine iff_of_true (iff_of_false Bool.false_ne_true fun h => h.1 h.2) fun hconn hcanceled => ?_
    exact hc ⟨hconn, .CANCELED, hcanceled, by decide⟩

theorem cancelsLate_iff {e : Event D} : s.CancelsLate e ↔ s.ChangesNothing e ∧ s.CancelExact e := by
  cases e with
  | cancelOrder now id =>
    rw [cancelExact_iff]
    constructor
    · intro h
      refine ⟨?_, fun hconn hcanceled => (h hconn _ hcanceled).1 rfl⟩
      rintro hcb ⟨hconn, st, hst, hne⟩
      exact hne ((h hconn st hst).2 hcb)
    · rintro ⟨hnothing, hexact⟩ hconn st hst
      refine ⟨fun heq => hexact hconn (heq ▸ hst), fun hcb => ?_⟩
      by_contra hne
      exact hnothing hcb ⟨hconn, st, hst, hne⟩
  | connect | disconnect | submitOrder | modifyOrder | executes => simp [CancelsLate, ChangesNothing, CancelExact]

/-- **The execution reports** of every order are right in all states of a run, and every cancel returns true exactly
when it cancels, if and only if every cancel of an order comes when it is filled; or, where no callback gets the
reports, when it is not cancelled yet. -/
theorem run_reports_iff [Zero D] {n : Nat} {es : List (Event D)} (h : Run step (constructed executionCallback n) es s) :
    ((∀ pre post s', es = pre ++ post → Run step (constructed executionCallback n) pre s' →
        ∀ id, WellReported (s'.reportsOf id)) ∧
      Along step CancelExact (constructed executionCallback n) es) ↔
      Along step CancelsLate (constructed executionCallback n) es := by
  have hreports := h.always_iff_along (P := fun s => ∀ id, WellReported (s.reportsOf id))
    (fun _ _ _ => step_valid) (fun _ _ _ => step_wellReported_iff) (constructed_valid _ _) fun _ => .inl List.nil_prefix
  constructor
  · rintro ⟨hwell, hexact⟩ pre e post s' heq hpre
    exact cancelsLate_iff.2 ⟨hreports.1 hwell pre e post s' heq hpre, hexact pre e post s' heq hpre⟩
  · intro hlate
    refine ⟨hreports.2 ?_, ?_⟩
    · intro pre e post s' heq hpre
      exact (cancelsLate_iff.1 (hlate pre e post s' heq hpre)).1
    · intro pre e post s' heq hpre
      exact (cancelsLate_iff.1 (hlate pre e post s' heq hpre)).2

def testOrder : OrderRequest Int := ⟨"BTC/USD", .BUY, .LIMIT, 50000, 1, "test_order_2"⟩

/-- The cancel comes after the thread. -/
def filledRun : List (Event Int) :=
  [.connect, .submitOrder testOrder, .executes 0 50 "MOCK_1", .cancelOrder 60 "MOCK_1"]

theorem filledRun_reports :
    (∀ pre post s', filledRun = pre ++ post → Run step (constructed true 0) pre s' →
        ∀ id, WellReported (s'.reportsOf id)) ∧
      Along step CancelExact (constructed true 0) filledRun := by
  refine (run_reports_iff (run_iff_exec.2 rfl)).2 ?_
  refine .cons trivial fun s₁ h₁ => .cons trivial fun s₂ h₂ => .cons trivial fun s₃ h₃ => .cons ?_ fun _ _ => .nil
  cases h₁; cases h₂; cases h₃
  intro _ st hst
  cases hst
  exact ⟨by decide, fun _ => rfl⟩

/-- The cancel comes twice, before the thread. -/
def canceledRun : List (Event Int) :=
  [.connect, .submitOrder testOrder, .cancelOrder 0 "MOCK_1", .cancelOrder 10 "MOCK_1", .executes 20 70 "MOCK_1"]

theorem canceledRun_misreported :
    (¬ ∀ es (s : MockExchangeAdapter Int), Run step (constructed true 0) es s →
      ∀ id, WellReported (s.reportsOf id)) ∧
    ¬ ∀ es (s : MockExchangeAdapter Int), Run step (constructed true 0) es s →
      Along step CancelExact (constructed true 0) es := by
  constructor
  · intro h
    have hwell := h canceledRun _ (run_iff_exec.2 rfl) "MOCK_1"
    revert hwell
    decide
  · intro h
    have hexact := h canceledRun _ (run_iff_exec.2 rfl) [.connect, .submitOrder testOrder, .cancelOrder 0 "MOCK_1"]
      (.cancelOrder 10 "MOCK_1") _ _ rfl (run_iff_exec.2 rfl)
    exact (hexact.1 rfl).1 rfl

end MockExchangeAdapter

end CryptoHft
