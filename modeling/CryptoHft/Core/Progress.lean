import CryptoHft.Core.Parallel

/-!
# Nothing hangs

* While the owner waits in `stop`, the dispatcher is never stuck, and after at most three of its steps, whatever the
  other threads do in between, `stop` returns (`Session.stop_returns`).
* A handler's call takes as many steps of its thread as it has entries, and four reads, whatever the other threads do in
  between; until it is over its next step is enabled (`Parallel.call_completes`). No ownership of symbols is asked for.
-/

namespace CryptoHft

open Machine SharedReads

/-! ## The return of `stop` -/

namespace Session

variable {T D : Type} [LinearOrder D] {s s' : Session T D} {ev : Event T D}

/-- The event is a step of the dispatcher thread. -/
def Event.byDispatcher : Event T D → Bool
  | .test | .dequeue _ | .miss | .deliver => true
  | _ => false

/-- The most steps of the dispatcher until it has left its loop, if `running` is false. -/
def toLeave (s : Session T D) : ℕ :=
  match s.dispatcher with
  | .none | .finished => 0
  | .test => 1
  | .holding _ _ => 2
  | .dequeue => 3

theorem toLeave_le (s : Session T D) : s.toLeave ≤ 3 := by
  unfold toLeave
  split <;> omega

/-- There is a dispatcher thread while the engine runs, and until `stop` has joined it. -/
def Threaded (s : Session T D) : Prop := s.engine.running = true ∨ s.stopping = true → s.dispatcher ≠ .none

theorem ready_threaded : (ready : Session T D).Threaded := by
  rintro (h | h) <;> cases h

section Steps

variable [Zero D] [DecidableEq T]

theorem step_threaded (hreg : s.Regular) (hs : s.Threaded) (h : step s ev = some s') : s'.Threaded := by
  cases moves_of_step h with
  | alreadyInitialized | stopsIdle => exact hs
  | initializes => exact fun _ => by simp
  | calls uninit ev => exact fun hr => hs (hr.imp_left (start_running uninit _ ev).symm.trans)
  | enqueues => exact hs
  | tests =>
    intro _
    cases s.engine.running <;> simp
  | dequeues | misses | delivers => exact fun _ => by simp
  | stops hr => exact fun _ => hs (Or.inl hr)
  | stopReturns hst =>
    rintro (hr | hr)
    · exact absurd hr (by simp [hreg.stopping hst])
    · cases hr

/-- While the owner waits, each step of the dispatcher brings it closer to leaving its loop, and nobody else's takes it
back. -/
theorem step_toLeave (hs : s.Regular) (hst : s.stopping = true) (h : step s ev = some s') :
    ev.byDispatcher.toNat + s'.toLeave ≤ s.toLeave := by
  have hrun : s.engine.running = false := hs.stopping hst
  cases moves_of_step h with
  | alreadyInitialized hn | initializes hn => rw [hn] at hst; cases hst
  | calls | enqueues | stopsIdle => exact (Nat.zero_add _).le
  | tests hd | dequeues hd | misses hd | delivers hd => simp [Event.byDispatcher, toLeave, hd, hrun]
  | stops hr => rw [hr] at hrun; cases hrun
  | stopReturns _ hd => simp [Event.byDispatcher, toLeave, hd]

/-- While the owner waits, the dispatcher has an enabled step, or `stop` returns. -/
theorem exists_step (hs : s.Threaded) (hst : s.stopping = true) :
    if s.toLeave = 0 then ∃ s', step s .stopReturns = some s'
    else ∃ ev s', ev.byDispatcher = true ∧ step s ev = some s' := by
  have hthere := hs (Or.inr hst)
  cases hd : s.dispatcher with
  | none => exact absurd hd hthere
  | finished =>
    rw [if_pos (by rw [toLeave, hd])]
    simp only [step, hst, hd]
    exact ⟨_, rfl⟩
  | test =>
    rw [if_neg (by simp [toLeave, hd])]
    exact ⟨.test, _, rfl, by simp only [step, hd]; rfl⟩
  | dequeue =>
    rw [if_neg (by simp [toLeave, hd])]
    exact ⟨.miss, _, rfl, by simp only [step, hd]; rfl⟩
  | holding thread update =>
    rw [if_neg (by simp [toLeave, hd])]
    exact ⟨.deliver, _, rfl, by simp only [step, hd]; rfl⟩

theorem run_threaded {es : List (Event T D)} (h : Run step ready es s) : s.Regular ∧ s.Threaded := by
  refine h.invariant (I := fun s => s.Regular ∧ s.Threaded) ?_ ⟨ready_regular, ready_threaded⟩
  rintro s e s' ⟨hreg, hs⟩ hst
  exact ⟨step_regular hreg hst, step_threaded hreg hs hst⟩

/-- **`stop` returns**: from the call on, the dispatcher makes at most three steps, whatever the other threads do in
between; it is never stuck, and when it has made its last step `stop` returns. -/
theorem stop_returns {es es' : List (Event T D)} (h : Run step ready es s) (hst : s.stopping = true)
    (h' : Run step s es' s') (hes' : .stopReturns ∉ es') :
    es'.countP Event.byDispatcher + s'.toLeave ≤ 3 ∧
      if s'.toLeave = 0 then ∃ s'', step s' .stopReturns = some s''
      else ∃ ev s'', ev.byDispatcher = true ∧ step s' ev = some s'' := by
  obtain ⟨hreg, hthreaded⟩ := run_threaded h
  have hok : Along step (fun _ e => e ≠ .stopReturns) s es' := by
    rintro pre e post _ rfl - rfl
    exact hes' (by simp)
  have hstep : ∀ (s : Session T D) e s', (s.Regular ∧ s.Threaded) ∧ s.stopping = true → e ≠ .stopReturns →
      step s e = some s' →
      ((s'.Regular ∧ s'.Threaded) ∧ s'.stopping = true) ∧ e.byDispatcher.toNat + s'.toLeave ≤ s.toLeave := by
    rintro s e s' ⟨⟨hreg, hs⟩, hst⟩ hne hstep
    refine ⟨⟨⟨step_regular hreg hstep, step_threaded hreg hs hstep⟩, ?_⟩, step_toLeave hreg hst hstep⟩
    exact (step_settled hreg hst hstep).1 hne
  obtain ⟨⟨⟨-, hthreaded'⟩, hst'⟩, hcount⟩ := h'.countP_add_le hstep hok ⟨⟨hreg, hthreaded⟩, hst⟩
  exact ⟨hcount.trans s.toLeave_le, exists_step hthreaded' hst'⟩

end Steps

section Example

/-- The dispatcher has tested `running` once after the call of `stop`: `stop` returns. -/
theorem stop_returns_after_test : ∃ s : Session ℕ ℤ,
    Run step ready [.initializeEngine [], .stop, .test] s ∧ ∃ s', step s .stopReturns = some s' := by
  have hrun : ∃ s s' : Session ℕ ℤ, Run step ready [.initializeEngine [], .stop] s ∧ s.stopping = true ∧
      Run step s [.test] s' ∧ s'.toLeave = 0 := ⟨_, _, run_iff_exec.2 rfl, rfl, run_iff_exec.2 rfl, rfl⟩
  obtain ⟨s, s', hs, hst, hs', hleft⟩ := hrun
  have hreturns := (stop_returns hs hst hs' (by simp)).2
  rw [if_pos hleft] at hreturns
  exact ⟨s', hs.append hs', hreturns⟩

end Example

end Session

/-! ## The calls of the handlers -/

namespace Parallel

variable {T D : Type} [LinearOrder D] {s s' : Parallel T D}

/-- Every pointer, of the map or in the hands of a thread, leads to a book. -/
structure Valid (s : Parallel T D) : Prop where
  orderBooks : ∀ x r, s.orderBooks x = some r → r < s.made.length
  task : ∀ i t, s.task i = some t → t.orderBook < s.made.length

theorem ready_valid : (ready : Parallel T D).Valid := ⟨nofun, nofun⟩

theorem Valid.make (hs : s.Valid) (x : String) : (s.make x).Valid := by
  have hlength : (s.make x).made.length = s.made.length + 1 := List.length_append
  refine ⟨fun y r hy => ?_, fun i t ht => ?_⟩
  · rw [hlength]
    by_cases hyx : y = x
    · subst hyx
      rw [make_orderBooks_self] at hy
      cases hy
      exact Nat.lt_succ_self _
    · rw [make_orderBooks_ne s hyx] at hy
      exact (hs.orderBooks y r hy).trans (Nat.lt_succ_self _)
  · rw [hlength]
    exact (hs.task i t ht).trans (Nat.lt_succ_self _)

theorem foldl_make_task (s : Parallel T D) (symbols : List String) : (symbols.foldl Parallel.make s).task = s.task := by
  induction symbols generalizing s with
  | nil => rfl
  | cons x symbols ih => exact ih (s.make x)

theorem Valid.makeAll (hs : s.Valid) (symbols : List String) : (symbols.foldl Parallel.make s).Valid := by
  induction symbols generalizing s with
  | nil => exact hs
  | cons x symbols ih => exact ih (hs.make x)

variable [DecidableEq T]

/-- A thread that gets a task, or loses it, keeps the pointers valid when the task's is. -/
theorem Valid.update (hs : s.Valid) {i : T} {t : Option (Task D)} (ht : ∀ t', t = some t' → t'.orderBook < s.made.length) :
    ∀ j t', Function.update s.task i t j = some t' → t'.orderBook < s.made.length := by
  intro j t' hj
  by_cases hji : j = i
  · subst hji
    rw [Function.update_self] at hj
    exact ht t' hj
  · rw [Function.update_of_ne hji] at hj
    exact hs.task j t' hj

variable [Field D]

/-- What an event of the session does to the books, the pointers and the tasks. -/
theorem session_cases {ev : Session.Event T D} (h : step s (.session ev) = some s') :
    (∃ symbols : List String, s'.made = (symbols.foldl Parallel.make s).made ∧
      s'.orderBooks = (symbols.foldl Parallel.make s).orderBooks ∧ s'.task = s.task) ∨
    (∃ i uninit e r, ev = .call i uninit e ∧ s.task i = none ∧ s.orderBooks e.symbol = some r ∧
      s' = { s with task := Function.update s.task i (some ⟨r, e.writes, e.reads uninit⟩) }) ∨
    ∃ t, (∀ i, ev ≠ .enqueue i → t i = s.task i) ∧ (∀ i t', t i = some t' → s.task i = some t') ∧
      s'.made = s.made ∧ s'.orderBooks = s.orderBooks ∧ s'.task = t := by
  have hkeep : (∀ i, ev ≠ .enqueue i → s.task i = s.task i) ∧ ∀ i t', s.task i = some t' → s.task i = some t' :=
    ⟨fun _ _ => rfl, fun _ _ => id⟩
  cases ev with
  | initializeEngine symbols =>
    rw [step] at h
    split at h
    · cases h
    · split at h
      · cases h
        exact .inr (.inr ⟨s.task, hkeep.1, hkeep.2, rfl, rfl, rfl⟩)
      · cases h
        exact .inl ⟨symbols, rfl, rfl, foldl_make_task s symbols⟩
  | call i uninit e =>
    rw [step] at h
    split at h
    · cases h
    · cases h
      exact .inr (.inr ⟨s.task, hkeep.1, hkeep.2, rfl, rfl, rfl⟩)
    · next r ht hr =>
      cases h
      exact .inr (.inl ⟨i, uninit, e, r, rfl, ht, hr, rfl⟩)
  | enqueue i =>
    rw [step] at h
    split at h
    · cases h
      refine .inr (.inr ⟨Function.update s.task i none, fun j hj => ?_, fun j t' hj => ?_, rfl, rfl, rfl⟩)
      · exact Function.update_of_ne (fun he => hj (congrArg _ he.symm)) ..
      · by_cases hji : j = i
        · subst hji
          rw [Function.update_self] at hj
          cases hj
        · rwa [Function.update_of_ne hji] at hj
    · cases h
  | test | dequeue | miss | deliver | stop | stopReturns =>
    rw [step] at h
    split at h <;> cases h <;> exact .inr (.inr ⟨s.task, hkeep.1, hkeep.2, rfl, rfl, rfl⟩)

theorem step_valid {e : Event T D} (hs : s.Valid) (h : step s e = some s') : s'.Valid := by
  cases e with
  | work i =>
    rw [step] at h
    split at h
    · next r op writes reads ht =>
      cases h
      have hr : r < s.made.length := hs.task i _ ht
      have hlength : ∀ f, (s.made.modify r f).length = s.made.length := fun f => List.length_modify ..
      refine ⟨fun x r hx => ?_, fun j t hj => ?_⟩
      · rw [hlength]
        exact hs.orderBooks x r hx
      · rw [hlength]
        exact hs.update (fun t' ht' => by cases ht'; exact hr) j t hj
    · next r q k ht =>
      obtain ⟨b, -, rfl⟩ := Option.map_eq_some_iff.1 h
      have hr : r < s.made.length := hs.task i _ ht
      exact ⟨hs.orderBooks, hs.update fun t' ht' => by cases ht'; exact hr⟩
    · cases h
  | session ev =>
    rcases session_cases h with ⟨symbols, hm, ho, ht⟩ | ⟨i, uninit, e, r, -, -, hr, rfl⟩ | ⟨t, -, hold, hm, ho, ht⟩
    · have hmake := hs.makeAll symbols
      refine ⟨fun x r hx => ?_, fun j t hj => ?_⟩
      · rw [hm]
        exact hmake.orderBooks x r (ho ▸ hx)
      · rw [hm]
        exact hmake.task j t (by rw [foldl_make_task, ← ht, hj])
    · have hlt := hs.orderBooks _ r hr
      exact ⟨hs.orderBooks, hs.update fun t' ht' => by cases ht'; exact hlt⟩
    · refine ⟨fun x r hx => ?_, fun j t' hj => ?_⟩
      · rw [hm]
        exact hs.orderBooks x r (ho ▸ hx)
      · rw [hm]
        exact hs.task j t' (hold j t' (ht ▸ hj))

/-! ### The steps of one call -/

/-- The event is a step of the thread on the book of its task. -/
def Event.worksFor (i : T) : Event T D → Bool
  | .work j => j = i
  | .session _ => false

/-- The thread has a task with `n` steps to make, whatever it reads. -/
def Left (s : Parallel T D) (i : T) (n : ℕ) : Prop :=
  ∃ t m, s.task i = some t ∧ t.reads.Takes m ∧ t.writes.length + m = n

omit [DecidableEq T] [Field D] in
theorem Left.of_task_eq {i : T} {n : ℕ} (h : s.Left i n) (ht : s'.task i = s.task i) : s'.Left i n := by
  obtain ⟨t, m, hi, hm, hn⟩ := h
  exact ⟨t, m, ht.trans hi, hm, hn⟩

/-- A step takes one from what its thread has left, and nothing from the others. -/
theorem step_left {e : Event T D} {i : T} {n : ℕ} (hs : s.Left i n) (h : step s e = some s')
    (he : e ≠ .session (.enqueue i)) : ∃ n', s'.Left i n' ∧ (e.worksFor i).toNat + n' = n := by
  obtain ⟨t, m, ht, hm, hn⟩ := hs
  cases e with
  | work j =>
    by_cases hj : j = i
    · subst hj
      rw [step, ht] at h
      obtain ⟨r, writes, reads⟩ := t
      cases writes with
      | cons op writes =>
        cases h
        refine ⟨writes.length + m, ⟨_, m, Function.update_self .., hm, rfl⟩, ?_⟩
        rw [← hn, List.length_cons, Event.worksFor, decide_eq_true rfl, Bool.toNat_true]
        omega
      | nil =>
        cases reads with
        | ret u => cases h
        | read q k =>
          obtain ⟨b, -, rfl⟩ := Option.map_eq_some_iff.1 h
          obtain ⟨m', rfl, hk⟩ := hm
          refine ⟨m', ⟨_, m', Function.update_self .., hk _, Nat.zero_add _⟩, ?_⟩
          rw [← hn, Event.worksFor, decide_eq_true rfl, Bool.toNat_true, List.length_nil]
          omega
    · have hkeep : s'.task i = s.task i := by
        rw [step] at h
        split at h
        · cases h
          exact Function.update_of_ne (Ne.symm hj) ..
        · obtain ⟨b, -, rfl⟩ := Option.map_eq_some_iff.1 h
          exact Function.update_of_ne (Ne.symm hj) ..
        · cases h
      refine ⟨n, Left.of_task_eq ⟨t, m, ht, hm, hn⟩ hkeep, ?_⟩
      rw [Event.worksFor, decide_eq_false hj, Bool.toNat_false, Nat.zero_add]
  | session ev =>
    refine ⟨n, Left.of_task_eq ⟨t, m, ht, hm, hn⟩ ?_, Nat.zero_add n⟩
    rcases session_cases h with ⟨_, -, -, hk⟩ | ⟨j, uninit, e, r, -, hj, -, rfl⟩ | ⟨t', hkeep, -, -, -, hk⟩
    · rw [hk]
    · exact Function.update_of_ne (fun hij => by rw [hij, hj] at ht; cases ht) ..
    · rw [hk]
      exact hkeep i fun hev => he (congrArg _ hev)

theorem run_left {es : List (Event T D)} {i : T} {n : ℕ} (h : Run step s es s') (hs : s.Left i n)
    (hes : .session (.enqueue i) ∉ es) : ∃ n', s'.Left i n' ∧ es.countP (Event.worksFor i) + n' = n := by
  induction h generalizing n with
  | nil => exact ⟨n, hs, by simp⟩
  | @cons s s₁ s' e es hst _ ih =>
    obtain ⟨hne, hes⟩ := List.ne_and_not_mem_of_not_mem_cons hes
    obtain ⟨n₁, hs₁, hn₁⟩ := step_left hs hst hne.symm
    obtain ⟨n', hs', hn'⟩ := ih hs₁ hes
    refine ⟨n', hs', ?_⟩
    rw [List.countP_cons]
    cases hw : e.worksFor i <;> simp only [hw, Bool.toNat_true, Bool.toNat_false, Bool.false_eq_true, ↓reduceIte] at hn₁ ⊢ <;>
      omega

/-- A thread with steps left can make the next one, and one without enqueues its update. -/
theorem Left.enabled (hvalid : s.Valid) {i : T} {n : ℕ} (h : s.Left i n) :
    if n = 0 then ∃ s', step s (.session (.enqueue i)) = some s' ∧ s'.task i = none
    else ∃ s', step s (.work i) = some s' := by
  obtain ⟨⟨r, writes, reads⟩, m, ht, hm, rfl⟩ := h
  have hr : r < s.made.length := hvalid.task i _ ht
  cases writes with
  | cons op writes =>
    rw [if_neg (by simp)]
    simp only [step, ht]
    exact ⟨_, rfl⟩
  | nil =>
    cases reads with
    | ret u =>
      obtain rfl : m = 0 := hm
      simp only [step, ht, List.length_nil, Nat.add_zero, ↓reduceIte]
      exact ⟨_, rfl, Function.update_self ..⟩
    | read q k =>
      obtain ⟨m', rfl, -⟩ := hm
      rw [if_neg (by simp)]
      simp only [step, ht, List.getElem?_eq_getElem hr]
      exact ⟨_, rfl⟩

/-- The steps of a handler's call: one for each entry it writes, and one for each component it reads. -/
def turns : MarketEvent D → ℕ
  | .snapshot _ => 1
  | .delta d => d.bidUpdates.length + d.askUpdates.length + 4

theorem left_of_call {i : T} {uninit : MarketUpdate D} {ev : MarketEvent D} {r : ℕ}
    (hr : s.orderBooks ev.symbol = some r) (h : step s (.session (.call i uninit ev)) = some s') :
    s'.Left i (turns ev) := by
  rw [step] at h
  split at h
  · cases h
  · next ht hn => rw [hr] at hn; cases hn
  · cases h
    cases ev with
    | snapshot sn => exact ⟨_, 0, Function.update_self .., rfl, rfl⟩
    | delta d =>
      refine ⟨_, 4, Function.update_self .., ?_, ?_⟩
      · exact ⟨3, rfl, fun _ => ⟨2, rfl, fun _ => ⟨1, rfl, fun _ => ⟨0, rfl, fun _ => rfl⟩⟩⟩⟩
      · simp [MarketEvent.writes, turns]

/-- **Calls complete**: from its lookup of a known book to its enqueue a handler's call makes `turns ev` steps, whatever
the other threads do in between, and it is never stuck on the way. -/
theorem call_completes {es es' : List (Event T D)} (h : Run step ready es s) {i : T} {uninit : MarketUpdate D}
    {ev : MarketEvent D} (hknown : s.orderBooks ev.symbol ≠ none)
    (h' : Run step s (.session (.call i uninit ev) :: es') s') (hes' : .session (.enqueue i) ∉ es') :
    es'.countP (Event.worksFor i) ≤ turns ev ∧
      if es'.countP (Event.worksFor i) = turns ev then
        ∃ s'', step s' (.session (.enqueue i)) = some s'' ∧ s''.task i = none
      else ∃ s'', step s' (.work i) = some s'' := by
  have hvalid : s.Valid := h.invariant (I := Valid) (fun _ _ _ hs hst => step_valid hs hst) ready_valid
  have hvalid' : s'.Valid := h'.invariant (I := Valid) (fun _ _ _ hs hst => step_valid hs hst) hvalid
  obtain ⟨r, hr⟩ := Option.ne_none_iff_exists'.1 hknown
  cases h' with
  | cons hcall hrest =>
    obtain ⟨n, hleft, hcount⟩ := run_left hrest (left_of_call hr hcall) hes'
    have henabled := hleft.enabled hvalid'
    refine ⟨by omega, ?_⟩
    by_cases hn : n = 0
    · rw [if_pos hn] at henabled
      rwa [if_pos (by omega)]
    · rw [if_neg hn] at henabled
      rwa [if_neg (by omega)]

section Example

/-- A write and two reads: two reads are left. -/
theorem call_goes_on : ∃ s s' s'' : Parallel ℕ ℚ, Run step ready (turnsTaken.take 1) s ∧
    Run step s (.session (.call 0 noUpdate coinbaseTick) :: (turnsTaken.drop 2).take 7) s' ∧
      step s' (.work 0) = some s'' := by
  have hrun : ∃ s s' : Parallel ℕ ℚ, Run step ready (turnsTaken.take 1) s ∧
      s.orderBooks coinbaseTick.symbol ≠ none ∧
      Run step s (.session (.call 0 noUpdate coinbaseTick) :: (turnsTaken.drop 2).take 7) s' :=
    ⟨_, _, run_iff_exec.2 rfl, by decide, run_iff_exec.2 rfl⟩
  obtain ⟨s, s', hs, hknown, hs'⟩ := hrun
  have henabled := (call_completes hs hknown hs' (by simp [turnsTaken])).2
  rw [if_neg (by decide)] at henabled
  obtain ⟨s'', hs''⟩ := henabled
  exact ⟨s, s', s'', hs, hs', hs''⟩

end Example

end Parallel

end CryptoHft
