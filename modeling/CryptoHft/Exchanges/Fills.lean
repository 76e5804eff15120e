import CryptoHft.Exchanges.ExecutionReports

/-!
# The fills of the mock exchange

What a step does to an order and to its reports is said once (`Changes`).

* The reports agree with the orders (`Accounts`): an order that is not filled has amounts 0, in its reports too; a filled
  one has two reports, the second with the amount and the price that the order holds. Nothing changes them afterwards
  (`run_accounts`).
* An order is filled at the price and the size that the last call before its thread set, unless it was cancelled by then:
  the submission, or a modification of the known order (`run_fills`). So no modification is lost.
-/

namespace CryptoHft

open Machine

namespace MockExchangeAdapter

variable {D : Type} {s s' : MockExchangeAdapter D} {id id' : String}

/-! ## Orders and their reports -/

/-- The reports of an order, oldest first. -/
def responsesOf (id : String) (s : MockExchangeAdapter D) : List (OrderResponse D) :=
  s.reports.filter fun response => response.orderId = id

/-- The reports that reach a callback. -/
def handed (executionCallback : Bool) (responses : List (OrderResponse D)) : List (OrderResponse D) :=
  if executionCallback then responses else []

theorem handed_append (executionCallback : Bool) (r r' : OrderResponse D) :
    handed executionCallback [r] ++ handed executionCallback [r'] = handed executionCallback [r, r'] := by
  cases executionCallback <;> rfl

theorem responsesOf_report (response : OrderResponse D) : (s.report response).responsesOf id =
    s.responsesOf id ++ if response.orderId = id then handed s.executionCallback [response] else [] := by
  unfold report handed responsesOf
  cases s.executionCallback with
  | false => simp
  | true => by_cases h : response.orderId = id <;> simp [h]

theorem responsesOf_report_ne (h : id ≠ id') (response : OrderResponse D) (hr : response.orderId = id') :
    (s.report response).responsesOf id = s.responsesOf id := by
  rw [responsesOf_report, if_neg fun he => h (he.symm.trans hr), List.append_nil]

@[simp] theorem responsesOf_setOrder (order : OrderState D) :
    (s.setOrder id' order).responsesOf id = s.responsesOf id := rfl

theorem orders_setOrder (order : OrderState D) : (s.setOrder id order).orders id = some order :=
  Function.update_self ..

theorem orders_setOrder_ne (h : id ≠ id') (order : OrderState D) : (s.setOrder id' order).orders id = s.orders id :=
  Function.update_of_ne h ..

/-! ## What a step does to an order -/

/-- The event is not about the order, or is refused. -/
def Leaves (s : MockExchangeAdapter D) (id : String) : Event D → Prop
  | .connect | .disconnect => True
  | .submitOrder _ => s.connected = true → orderId (s.orderCounter + 1) ≠ id
  | .cancelOrder _ id' => id' = id → ¬ s.Cancels id
  | .modifyOrder id' _ _ => s.connected = true → id' = id → s.orders id = none
  | .executes _ _ id' => id' = id → s.orders id = none

/-- What one step may make of an order and its reports. -/
inductive Changes [Zero D] (s : MockExchangeAdapter D) (id : String) :
    Event D → Option (OrderState D) → List (OrderResponse D) → Prop
  | keeps {e : Event D} (he : s.Leaves id e) : Changes s id e (s.orders id) (s.responsesOf id)
  | submits {request : OrderRequest D} (hc : s.connected = true) (hid : orderId (s.orderCounter + 1) = id) :
      Changes s id (.submitOrder request) (some ⟨request, .NEW, 0, 0⟩) (s.responsesOf id)
  | cancels {now : Int} {order : OrderState D} (ho : s.orders id = some order) (hne : order.status ≠ .FILLED) :
      Changes s id (.cancelOrder now id) (some { order with status := .CANCELED }) (s.responsesOf id ++
        handed s.executionCallback
          [⟨id, order.request.clientOrderId, .CANCELED, order.filledAmount, order.fillPrice, now⟩])
  | modifies {newPrice newSize : D} {order : OrderState D} (hc : s.connected = true) (ho : s.orders id = some order) :
      Changes s id (.modifyOrder id newPrice newSize)
        (some { order with request := { order.request with price := newPrice, size := newSize } }) (s.responsesOf id)
  | findsCanceled {now later : Int} {order : OrderState D} (ho : s.orders id = some order)
      (hst : order.status = .CANCELED) : Changes s id (.executes now later id) (some order) (s.responsesOf id ++
        handed s.executionCallback [⟨id, order.request.clientOrderId, .NEW, 0, 0, now⟩,
          ⟨id, order.request.clientOrderId, .CANCELED, 0, 0, later⟩])
  | fills {now later : Int} {order : OrderState D} (ho : s.orders id = some order) (hst : order.status ≠ .CANCELED)
      (hmem : id ∈ s.threads) : Changes s id (.executes now later id)
        (some { order with filledAmount := order.request.size, fillPrice := order.request.price, status := .FILLED })
        (s.responsesOf id ++ handed s.executionCallback [⟨id, order.request.clientOrderId, .NEW, 0, 0, now⟩,
          ⟨id, order.request.clientOrderId, .FILLED, order.request.size, order.request.price, later⟩])

section Steps

variable [Zero D] {e : Event D}

theorem Leaves.changes (he : s.Leaves id e) (ho : s'.orders id = s.orders id) (hr : s'.responsesOf id = s.responsesOf id) :
    Changes s id e (s'.orders id) (s'.responsesOf id) := by
  rw [ho, hr]
  exact .keeps he

theorem submitOrder_changes (request : OrderRequest D) (id : String) :
    Changes s id (.submitOrder request) ((s.submitOrder request).1.orders id)
      ((s.submitOrder request).1.responsesOf id) := by
  by_cases hc : s.connected = true
  · simp only [submitOrder, if_pos hc]
    by_cases hid : id = orderId (s.orderCounter + 1)
    · rw [hid, orders_setOrder]
      exact .submits hc rfl
    · have he : s.Leaves id (.submitOrder request) := fun _ => Ne.symm hid
      exact he.changes (orders_setOrder_ne hid _) rfl
  · simp only [submitOrder, if_neg hc]
    exact .keeps fun hconn => absurd hconn hc

theorem cancelOrder_changes (now : Int) (id' id : String) :
    Changes s id (.cancelOrder now id') ((s.cancelOrder now id').1.orders id)
      ((s.cancelOrder now id').1.responsesOf id) := by
  by_cases hc : s.Cancels id'
  · obtain ⟨hconn, st, hst, hne⟩ := hc
    obtain ⟨order, ho, rfl⟩ := Option.map_eq_some_iff.1 hst
    simp only [cancelOrder, if_pos hconn, ho, if_pos hne]
    by_cases hid : id = id'
    · subst hid
      rw [orders_report, orders_setOrder, responsesOf_report, if_pos rfl]
      exact .cancels ho hne
    · have he : s.Leaves id (.cancelOrder now id') := fun h => absurd h.symm hid
      refine he.changes ?_ (responsesOf_report_ne hid _ rfl)
      rw [orders_report, orders_setOrder_ne hid]
  · rw [cancelOrder_of_not_cancels hc]
    exact .keeps fun hid => hid ▸ hc

theorem modifyOrder_changes (id' : String) (newPrice newSize : D) (id : String) :
    Changes s id (.modifyOrder id' newPrice newSize) ((s.modifyOrder id' newPrice newSize).1.orders id)
      ((s.modifyOrder id' newPrice newSize).1.responsesOf id) := by
  unfold modifyOrder
  split
  · next hc =>
    split
    · next ho => exact .keeps fun _ hid => hid ▸ ho
    · next order ho =>
      by_cases hid : id = id'
      · subst hid
        rw [orders_setOrder]
        exact .modifies hc ho
      · have he : s.Leaves id (.modifyOrder id' newPrice newSize) := fun _ h => absurd h.symm hid
        exact he.changes (orders_setOrder_ne hid _) rfl
  · next hc => exact .keeps fun hconn => absurd hconn hc

/-- The thread of an order, from the first report to the last. -/
theorem simulateOrderExecution_changes (hmem : id' ∈ s.threads) (now later : Int) (id : String) :
    Changes s id (.executes now later id')
      (({ s with threads := s.threads.erase id' }.simulateOrderExecution now later id').orders id)
      (({ s with threads := s.threads.erase id' }.simulateOrderExecution now later id').responsesOf id) := by
  have he : id ≠ id' → s.Leaves id (.executes now later id') := fun hid h => absurd h.symm hid
  unfold simulateOrderExecution
  split
  · next ho => exact .keeps fun hid => hid ▸ ho
  · next order ho =>
    simp only
    split
    · next hst =>
      by_cases hid : id = id'
      · subst hid
        rw [orders_report, orders_report, ho, responsesOf_report, responsesOf_report, executionCallback_report,
          if_pos rfl, if_pos rfl, List.append_assoc, handed_append]
        exact .findsCanceled ho hst
      · refine (he hid).changes (by rw [orders_report, orders_report]) ?_
        rw [responsesOf_report_ne hid _ rfl, responsesOf_report_ne hid _ rfl]
        rfl
    · next hst =>
      by_cases hid : id = id'
      · subst hid
        rw [orders_report, orders_setOrder, responsesOf_report, responsesOf_setOrder, responsesOf_report,
          executionCallback_setOrder, executionCallback_report, if_pos rfl, if_pos rfl, List.append_assoc,
          handed_append]
        exact .fills ho hst hmem
      · refine (he hid).changes (by rw [orders_report, orders_setOrder_ne hid, orders_report]) ?_
        rw [responsesOf_report_ne hid _ rfl, responsesOf_setOrder, responsesOf_report_ne hid _ rfl]
        rfl

/-- **What a step does** to an order and its reports. -/
theorem step_changes (hs : s.step e = some s') (id : String) : Changes s id e (s'.orders id) (s'.responsesOf id) := by
  cases e with
  | connect | disconnect => cases hs; exact .keeps trivial
  | submitOrder request => cases hs; exact submitOrder_changes request id
  | cancelOrder now id' => cases hs; exact cancelOrder_changes now id' id
  | modifyOrder id' newPrice newSize => cases hs; exact modifyOrder_changes id' newPrice newSize id
  | executes now later id' =>
    simp only [step] at hs
    split at hs
    · next hmem => cases hs; exact simulateOrderExecution_changes hmem now later id
    · cases hs

/-! ## The accounts -/

/-- A report of the order that is no fill. -/
structure Blank (order : OrderState D) (response : OrderResponse D) : Prop where
  client : response.clientOrderId = order.request.clientOrderId
  status : response.status ≠ .FILLED
  filledAmount : response.filledAmount = 0
  fillPrice : response.fillPrice = 0

/-- The report of the fill that the order holds. -/
structure Fill (order : OrderState D) (response : OrderResponse D) : Prop where
  client : response.clientOrderId = order.request.clientOrderId
  status : response.status = .FILLED
  filledAmount : response.filledAmount = order.filledAmount
  fillPrice : response.fillPrice = order.fillPrice

/-- The reports agree with the order. -/
inductive Accounts (executionCallback : Bool) : Option (OrderState D) → List (OrderResponse D) → Prop
  | unknown : Accounts executionCallback none []
  | unfilled {order : OrderState D} {responses : List (OrderResponse D)} (hst : order.status ≠ .FILLED)
      (hamount : order.filledAmount = 0) (hprice : order.fillPrice = 0) (hblank : ∀ r ∈ responses, Blank order r) :
      Accounts executionCallback (some order) responses
  | filled {order : OrderState D} {new fill : OrderResponse D} (hst : order.status = .FILLED)
      (hnew : Blank order new) (hfill : Fill order fill) :
      Accounts executionCallback (some order) (handed executionCallback [new, fill])

variable {executionCallback : Bool} {order : OrderState D} {responses : List (OrderResponse D)}

omit [Zero D] in
theorem mem_handed {r : OrderResponse D} (h : r ∈ handed executionCallback responses) : r ∈ responses := by
  unfold handed at h
  split at h
  · exact h
  · cases h

omit [Zero D] in
theorem status_of_orders (ho : s.orders id = some order) : s.status id = some order.status := by rw [status, ho]; rfl

omit [Zero D] in
/-- An order that waits for its thread is new, and not reported yet, unless it is cancelled. -/
theorem Valid.waits (h : s.Valid) (hmem : id ∈ s.threads) (ho : s.orders id = some order)
    (hst : order.status ≠ .CANCELED) : order.status = .NEW ∧ s.responsesOf id = [] := by
  have hlife := h.life id
  have hpos := List.count_pos_iff.2 hmem
  rw [view, status_of_orders ho] at hlife
  generalize hstatus : order.status = status, s.threads.count id = n, hrs : s.reportsOf id = rs at hlife hpos
  cases hlife with
  | waiting => exact ⟨rfl, List.map_eq_nil_iff.1 hrs⟩
  | canceled => exact absurd hstatus hst
  | filled => exact absurd hpos (Nat.lt_irrefl 0)

omit [Zero D] in
theorem Valid.unsubmitted (h : s.Valid) : s.orders (orderId (s.orderCounter + 1)) = none :=
  Option.map_eq_none_iff.1 (h.fresh _ (Nat.lt_succ_self _))

theorem step_accounts (h : s.Valid) (hs : s.step e = some s')
    (ha : Accounts s.executionCallback (s.orders id) (s.responsesOf id)) :
    Accounts s.executionCallback (s'.orders id) (s'.responsesOf id) := by
  have hchanges := step_changes hs id
  generalize s'.orders id = order', s'.responsesOf id = responses' at hchanges ⊢
  cases hchanges with
  | keeps => exact ha
  | submits hc hid =>
    subst hid
    rw [h.unsubmitted] at ha
    generalize s.responsesOf _ = responses at ha ⊢
    cases ha
    exact .unfilled (by simp) rfl rfl (by simp)
  | cancels ho hne =>
    rw [ho] at ha
    generalize s.responsesOf id = responses at ha ⊢
    cases ha with
    | unfilled hst hamount hprice hblank =>
      refine .unfilled (by simp) hamount hprice fun r hr => ?_
      rcases List.mem_append.1 hr with hr | hr
      · obtain ⟨hclient, hstatus, hfa, hfp⟩ := hblank r hr
        exact ⟨hclient, hstatus, hfa, hfp⟩
      · cases List.mem_singleton.1 (mem_handed hr)
        exact ⟨rfl, by simp, hamount, hprice⟩
    | filled hst => exact absurd hst hne
  | modifies hc ho =>
    rw [ho] at ha
    generalize s.responsesOf id = responses at ha ⊢
    cases ha with
    | unfilled hst hamount hprice hblank =>
      refine .unfilled hst hamount hprice fun r hr => ?_
      obtain ⟨hclient, hstatus, hfa, hfp⟩ := hblank r hr
      exact ⟨hclient, hstatus, hfa, hfp⟩
    | filled hst hnew hfill =>
      exact .filled hst ⟨hnew.client, hnew.status, hnew.filledAmount, hnew.fillPrice⟩
        ⟨hfill.client, hfill.status, hfill.filledAmount, hfill.fillPrice⟩
  | findsCanceled ho hst =>
    rw [ho] at ha
    generalize s.responsesOf id = responses at ha ⊢
    cases ha with
    | unfilled hne hamount hprice hblank =>
      refine .unfilled hne hamount hprice fun r hr => ?_
      rcases List.mem_append.1 hr with hr | hr
      · exact hblank r hr
      · have hpair := mem_handed hr
        simp only [List.mem_cons, List.not_mem_nil, or_false] at hpair
        rcases hpair with rfl | rfl <;> exact ⟨rfl, by simp, rfl, rfl⟩
    | filled hfilled => rw [hst] at hfilled; cases hfilled
  | fills ho hst hmem =>
    rw [(h.waits hmem ho hst).2, List.nil_append]
    exact .filled rfl ⟨rfl, by simp, rfl, rfl⟩ ⟨rfl, rfl, rfl, rfl⟩

/-- Nothing but the price and the size that were asked for changes of an order once it is filled. -/
theorem step_filled (h : s.Valid) (hs : s.step e = some s') (ho : s.orders id = some order)
    (hst : order.status = .FILLED) : s'.responsesOf id = s.responsesOf id ∧ ∃ order', s'.orders id = some order' ∧
      order'.status = .FILLED ∧ order'.filledAmount = order.filledAmount ∧ order'.fillPrice = order.fillPrice := by
  have hchanges := step_changes hs id
  generalize s'.orders id = order', s'.responsesOf id = responses' at hchanges ⊢
  cases hchanges with
  | keeps => exact ⟨rfl, order, ho, hst, rfl, rfl⟩
  | submits hc hid =>
    rw [← hid, h.unsubmitted] at ho
    cases ho
  | cancels ho' hne =>
    cases ho.symm.trans ho'
    exact absurd hst hne
  | modifies hc ho' =>
    cases ho.symm.trans ho'
    exact ⟨rfl, _, rfl, hst, rfl, rfl⟩
  | findsCanceled ho' hc =>
    cases ho.symm.trans ho'
    rw [hst] at hc
    cases hc
  | fills ho' hne hmem =>
    cases ho.symm.trans ho'
    have hnew := (h.waits hmem ho hne).1
    rw [hst] at hnew
    cases hnew

theorem run_account {n : Nat} {es : List (Event D)} (h : Run step (constructed executionCallback n) es s)
    (id : String) : s.Valid ∧ s.executionCallback = executionCallback ∧
      Accounts executionCallback (s.orders id) (s.responsesOf id) := by
  refine h.invariant (I := fun s => s.Valid ∧ s.executionCallback = executionCallback ∧
    Accounts executionCallback (s.orders id) (s.responsesOf id)) ?_ ⟨constructed_valid _ _, rfl, .unknown⟩
  rintro s e s' ⟨hvalid, hcb, ha⟩ hs
  obtain ⟨_, _, hm⟩ := step_moves hvalid hs
  rw [← hcb] at ha ⊢
  exact ⟨step_valid hvalid hs, hm.callback, step_accounts hvalid hs ha⟩

/-- **The accounts of a run**: the reports of every order agree with it; and once it is filled, its fill and its reports
stay as they are. -/
theorem run_accounts {n : Nat} {es es' : List (Event D)} (h : Run step (constructed executionCallback n) es s)
    (h' : Run step s es' s') (id : String) :
    Accounts executionCallback (s.orders id) (s.responsesOf id) ∧
      ∀ order, s.orders id = some order → order.status = .FILLED → s'.responsesOf id = s.responsesOf id ∧
        ∃ order', s'.orders id = some order' ∧ order'.status = .FILLED ∧
          order'.filledAmount = order.filledAmount ∧ order'.fillPrice = order.fillPrice := by
  obtain ⟨hvalid, -, ha⟩ := run_account h id
  refine ⟨ha, ?_⟩
  clear h ha
  induction h' with
  | nil => exact fun order ho hst => ⟨rfl, order, ho, hst, rfl, rfl⟩
  | cons hs _ ih =>
    intro order ho hst
    obtain ⟨hresponses, order₁, ho₁, hst₁, hamount₁, hprice₁⟩ := step_filled hvalid hs ho hst
    obtain ⟨hresponses', order', ho', hst', hamount', hprice'⟩ := ih (step_valid hvalid hs) order₁ ho₁ hst₁
    exact ⟨hresponses'.trans hresponses, order', ho', hst', hamount'.trans hamount₁, hprice'.trans hprice₁⟩

/-! ## The terms of a fill -/

/-- The price and the size that are asked for. -/
def terms (id : String) (s : MockExchangeAdapter D) : Option (D × D) :=
  (s.orders id).map fun order => (order.request.price, order.request.size)

/-- The price and the size that the call sets for the order. -/
def setsTerms (id : String) (s : MockExchangeAdapter D) : Event D → Option (D × D)
  | .submitOrder request =>
    if s.connected ∧ orderId (s.orderCounter + 1) = id then some (request.price, request.size) else none
  | .modifyOrder id' newPrice newSize =>
    if s.connected ∧ id' = id ∧ (s.orders id).isSome then some (newPrice, newSize) else none
  | .connect | .disconnect | .cancelOrder _ _ | .executes _ _ _ => none

/-- The price and the amount of the fill. -/
def filledAt (id : String) (s : MockExchangeAdapter D) : Option (D × D) :=
  (s.orders id).bind fun order => if order.status = .FILLED then some (order.fillPrice, order.filledAmount) else none

omit [Zero D] in
theorem Leaves.setsTerms (he : s.Leaves id e) : s.setsTerms id e = none := by
  cases e with
  | submitOrder request => exact if_neg fun h => he h.1 h.2
  | modifyOrder id' newPrice newSize =>
    refine if_neg fun h => ?_
    rw [he h.1 h.2.1] at h
    cases h.2.2
  | connect | disconnect | cancelOrder | executes => rfl

/-- The terms are those last set. -/
theorem step_terms (hs : s.step e = some s') (id : String) : s'.terms id = (s.setsTerms id e).or (s.terms id) := by
  have hchanges := step_changes hs id
  rw [terms]
  generalize s'.orders id = order', s'.responsesOf id = responses' at hchanges ⊢
  cases hchanges with
  | keeps he => rw [he.setsTerms]; rfl
  | submits hc hid => rw [MockExchangeAdapter.setsTerms, if_pos ⟨hc, hid⟩]; rfl
  | modifies hc ho => rw [MockExchangeAdapter.setsTerms, if_pos ⟨hc, rfl, by rw [ho]; rfl⟩]; rfl
  | cancels ho | findsCanceled ho | fills ho => simp only [MockExchangeAdapter.setsTerms, terms, ho]; rfl

theorem step_terms_iff (hs : s.step e = some s') (id : String) (v : D × D) :
    s'.terms id = some v ↔ s.setsTerms id e = some v ∨ s.setsTerms id e = none ∧ s.terms id = some v := by
  rw [step_terms hs]
  cases s.setsTerms id e <;> simp

/-- The thread of a new order fills it at its terms, and nothing else changes a fill. -/
theorem step_filledAt_iff (h : s.Valid) (hs : s.step e = some s') (id : String) (v : D × D) :
    s'.filledAt id = some v ↔
      ((∃ now later, e = .executes now later id) ∧ s.status id = some .NEW ∧ s.terms id = some v) ∨
        s.filledAt id = some v := by
  have hchanges := step_changes hs id
  rw [filledAt]
  generalize s'.orders id = order', s'.responsesOf id = responses' at hchanges ⊢
  cases hchanges with
  | keeps he =>
    refine ⟨Or.inr, ?_⟩
    rintro (⟨⟨now, later, rfl⟩, -, hterms⟩ | hf)
    · rw [terms, he rfl] at hterms
      cases hterms
    · exact hf
  | submits hc hid =>
    subst hid
    simp [filledAt, h.unsubmitted]
  | modifies hc ho => simp [filledAt, ho]
  | cancels ho hne => simp [filledAt, ho, hne]
  | findsCanceled ho hst => simp [filledAt, status, ho, hst]
  | fills ho hst hmem =>
    have hnew := (h.waits hmem ho hst).1
    simp [filledAt, terms, status, ho, hnew]

theorem run_terms {n : Nat} {es : List (Event D)} (h : Run step (constructed executionCallback n) es s) (id : String)
    (v : D × D) : s.terms id = some v ↔ ∃ pre e post t t', es = pre ++ e :: post ∧
      Run step (constructed executionCallback n) pre t ∧ step t e = some t' ∧ t.setsTerms id e = some v ∧
      Along step (fun s e => s.setsTerms id e = none) t' post :=
  h.holds_iff_set (I := fun _ => True) (M := fun s => s.terms id = some v) (fun _ _ _ _ _ => trivial)
    (fun _ _ _ _ hs => step_terms_iff hs id v) trivial (by simp [terms, constructed])

/-- **The terms of the fills of a run**: an order is filled at `v` if and only if its thread found it new, and `v` are
the price and the size of the last call before, a submission or a modification, that set them for the order. -/
theorem run_fills {n : Nat} {es : List (Event D)} (h : Run step (constructed executionCallback n) es s) (id : String)
    (v : D × D) : s.filledAt id = some v ↔
      ∃ before e after now later post t t' t'', es = before ++ e :: after ++ .executes now later id :: post ∧
        Run step (constructed executionCallback n) before t ∧ step t e = some t' ∧ t.setsTerms id e = some v ∧
        Run step t' after t'' ∧ Along step (fun s e => s.setsTerms id e = none) t' after ∧ t''.status id = some .NEW := by
  have hstep : ∀ (s : MockExchangeAdapter D) e s', s.Valid → step s e = some s' → (s'.filledAt id = some v ↔
      ((∃ now later, e = .executes now later id) ∧ s.status id = some .NEW ∧ s.terms id = some v) ∨
        True ∧ s.filledAt id = some v) := by
    intro s e s' hs hst
    rw [true_and]
    exact step_filledAt_iff hs hst id v
  rw [h.holds_iff_set (M := fun s => s.filledAt id = some v) (fun _ _ _ => step_valid) hstep (constructed_valid _ _)
    (by simp [filledAt, constructed])]
  constructor
  · rintro ⟨pre, _, post, t'', t₁, rfl, hpre, hst, ⟨⟨now, later, rfl⟩, hnew, hv⟩, -⟩
    obtain ⟨before, e, after, t, t', rfl, hbefore, he, hset, hkeeps⟩ := (run_terms hpre id v).1 hv
    refine ⟨before, e, after, now, later, post, t, t', t'', rfl, hbefore, he, hset, ?_, hkeeps, hnew⟩
    cases hpre.after hbefore with
    | cons he' hafter =>
      cases he.symm.trans he'
      exact hafter
  · rintro ⟨before, e, after, now, later, post, t, t', t'', rfl, hbefore, he, hset, hafter, hkeeps, hnew⟩
    have hpre : Run step (constructed executionCallback n) (before ++ e :: after) t'' := hbefore.append (.cons he hafter)
    have hv := (run_terms hpre id v).2 ⟨before, e, after, t, t', rfl, hbefore, he, hset, hkeeps⟩
    cases h.after hpre with
    | cons hst hpost =>
      refine ⟨_, _, post, t'', _, rfl, hpre, hst, ⟨⟨now, later, rfl⟩, hnew, hv⟩, ?_⟩
      exact fun _ _ _ _ _ _ => trivial

section Example

/-- Modified twice, and once more when it is filled. -/
def modifiedRun : List (Event Int) :=
  [.connect, .submitOrder testOrder, .modifyOrder "MOCK_1" 49000 2, .modifyOrder "MOCK_1" 51000 3,
    .executes 0 50 "MOCK_1", .modifyOrder "MOCK_1" 52000 4]

theorem modifiedRun_fills : ∃ s, Run step (constructed true 0) modifiedRun s ∧ s.filledAt "MOCK_1" = some (51000, 3) := by
  have hrun : ∃ s : MockExchangeAdapter Int, Run step (constructed true 0) modifiedRun s := ⟨_, run_iff_exec.2 rfl⟩
  obtain ⟨s, h⟩ := hrun
  refine ⟨s, h, (run_fills h "MOCK_1" (51000, 3)).2 ⟨modifiedRun.take 3, .modifyOrder "MOCK_1" 51000 3, [], 0, 50,
    [.modifyOrder "MOCK_1" 52000 4], _, _, _, rfl, run_iff_exec.2 rfl, rfl, rfl, .nil _, .nil, rfl⟩⟩

/-- The modification of a filled order changes neither the fill nor the reports. -/
theorem modifiedRun_accounts : ∃ s s' : MockExchangeAdapter Int, Run step (constructed true 0) (modifiedRun.take 5) s ∧
    Run step s (modifiedRun.drop 5) s' ∧ s'.responsesOf "MOCK_1" = s.responsesOf "MOCK_1" := by
  have hrun : ∃ s s' : MockExchangeAdapter Int, Run step (constructed true 0) (modifiedRun.take 5) s ∧
      Run step s (modifiedRun.drop 5) s' ∧ ∃ order, s.orders "MOCK_1" = some order ∧ order.status = .FILLED :=
    ⟨_, _, run_iff_exec.2 rfl, run_iff_exec.2 rfl, _, rfl, rfl⟩
  obtain ⟨s, s', h, h', order, ho, hst⟩ := hrun
  exact ⟨s, s', h, h', ((run_accounts h h' "MOCK_1").2 order ho hst).1⟩

end Example

end Steps

end MockExchangeAdapter

end CryptoHft
