import CryptoHft.Exchanges.Threads

/-!
# The destructor of an adapter

The destructor disconnects, lets go of the work guard that keeps an idle context running, and joins the IO thread. If
the IO thread is reconnecting, `disconnect` finds the adapter unconnected and returns at once: only the join at the end
waits for the reconnect.

`run_destroys`: once the context is stopped nothing is taken up, and at most one callback comes, from the message being
handled. A join ends after at most six steps of the IO thread, which is stuck in undefined behaviour only. After the
destructor there is nothing left that could step.
-/

namespace CryptoHft

open Machine

/-- The steps that the IO thread takes to the end of its handler. -/
def IoPhase.toWait : IoPhase → ℕ
  | .waits => 0
  | .connects _ | .stops none => 1
  | .stops (some _) | .clears none => 2
  | .clears (some _) | .disconnects none => 3
  | .disconnects (some _) | .handles (.message ..) => 4
  | .handles (.readError _) => 5

namespace Threads

open Connection (Runs)

variable {D : Type} {conv : Conversions D} {ex : Exchange} {s s' : Threads D} {e : Event}

/-! ## After the stop -/

/-- The IO thread takes up a completion. -/
def Event.TakesUp : Event → Prop
  | .takes _ | .writeCompletes => True
  | _ => False

/-- A message is being handled. -/
def pending (s : Threads D) : ℕ :=
  match s.io with
  | .handles (.message ..) => 1
  | _ => 0

theorem IoStep.calls (h : IoStep conv ex s s') :
    s'.adapter.calls.length + s'.pending ≤ s.adapter.calls.length + s.pending := by
  have hafter : ∀ reconnect (adapter : Adapter D) user, (⟨adapter, user, .after reconnect⟩ : Threads D).pending = 0 := by
    intro reconnect adapter user
    cases reconnect <;> rfl
  cases h with
  | leaves hio => exact Nat.le_refl _
  | handlesMessage hio h =>
    obtain ⟨-, -, -, -, hcalls, hio'⟩ := handlesMessage_eq h
    have hzero : s'.pending = 0 := by
      unfold pending
      rcases hio' with h | h <;> rw [h]
    have hone : s.pending = 1 := by
      unfold pending
      rw [hio]
    omega
  | @handlesError attempt hio =>
    have hzero : ({ s with io := if s.adapter.connected then .disconnects (some attempt) else .waits } :
        Threads D).pending = 0 := by
      unfold pending
      dsimp only
      cases s.adapter.connected <;> rfl
    dsimp only at hzero ⊢
    omega
  | clears hio => exact Nat.le_add_right _ _
  | @tests reconnect hio =>
    have hzero : ({ s with io := if s.adapter.connected then .clears reconnect else .after reconnect } :
        Threads D).pending = 0 := by
      cases s.adapter.connected with
      | true => rfl
      | false => exact hafter reconnect s.adapter s.user
    dsimp only at hzero ⊢
    omega
  | @stops reconnect hio =>
    have hzero := hafter reconnect { s.adapter with iocStopped := true } s.user
    dsimp only at hzero ⊢
    omega
  | @connects attempt hio =>
    have hcalls := (connect_keeps ex .io attempt s.adapter).2.2.1
    dsimp only
    rw [hcalls]
    exact Nat.le_add_right _ _

/-- Once the context is stopped, nothing is taken up, and only the message being handled can still make a call. -/
theorem step_stopped (hs : s.adapter.iocStopped = true) (hst : step conv ex s e = some s') :
    s'.adapter.iocStopped = true ∧ ¬ e.TakesUp ∧
      s'.adapter.calls.length + s'.pending ≤ s.adapter.calls.length + s.pending := by
  have hnot : ¬ Runs s.adapter := fun hr => by rw [hr.1] at hs; cases hs
  cases step_cases hst with
  | disconnects hu | destroys hu => exact ⟨hs, id, Nat.le_refl _⟩
  | calls hu hh hd h =>
    obtain ⟨hstop, -, hcalls, -⟩ := called_eq hh hd h
    refine ⟨hstop.trans hs, id, ?_⟩
    dsimp only
    rw [hcalls]
    exact Nat.le_refl _
  | userGoesOn h =>
    unfold Threads.userGoesOn at h
    split at h
    · cases h
    · cases h
    · cases h; exact ⟨hs, id, Nat.le_refl _⟩
    · cases h; exact ⟨rfl, id, Nat.le_refl _⟩
    · split at h
      · cases h
      · cases h; exact ⟨hs, id, Nat.le_refl _⟩
    · cases h; exact ⟨hs, id, Nat.le_refl _⟩
    · split at h
      · cases h
      · cases h; exact ⟨hs, id, Nat.le_refl _⟩
  | takes hw hr | writeCompletes hw hr => exact absurd hr hnot
  | ioGoesOn h => exact ⟨h.stopped hs, id, h.calls⟩

theorem run_stopped {es : List Event} (hs : s.adapter.iocStopped = true) (h : Run (step conv ex) s es s') :
    (∀ e ∈ es, ¬ e.TakesUp) ∧ s'.adapter.calls.length + s'.pending ≤ s.adapter.calls.length + s.pending := by
  induction h with
  | nil => exact ⟨fun _ he => absurd he List.not_mem_nil, Nat.le_refl _⟩
  | @cons s s₁ s' e es hst _ ih =>
    obtain ⟨hs₁, hne, hle⟩ := step_stopped hs hst
    obtain ⟨hes, hle'⟩ := ih hs₁
    exact ⟨List.forall_mem_cons.2 ⟨hne, hes⟩, hle'.trans hle⟩

/-! ## The joins -/

/-- The user's thread waits in a join. -/
def Joining (s : Threads D) : Prop := (∃ last, s.user = .joins last) ∨ s.user = .joinsLast

/-- A handler is being run whose behaviour is undefined. -/
def Undefined (conv : Conversions D) (ex : Exchange) (s : Threads D) : Prop :=
  ∃ now doc, s.io = .handles (.message now doc) ∧ ex.verdict conv now doc = .undefined

/-- The steps that the IO thread takes until it is out of `run`. -/
def toLeave (s : Threads D) : ℕ := if s.adapter.ioThread = .running then s.io.toWait + 1 else 0

theorem toLeave_le (s : Threads D) : s.toLeave ≤ 6 := by
  have hwait : s.io.toWait ≤ 5 := by
    unfold IoPhase.toWait
    split <;> omega
  unfold toLeave
  split <;> omega

theorem toLeave_running (h : s.adapter.ioThread = .running) : s.toLeave = s.io.toWait + 1 := if_pos h

theorem toWait_after (reconnect : Option Attempt) : (IoPhase.after reconnect).toWait < (IoPhase.stops reconnect).toWait := by
  cases reconnect <;> exact Nat.lt_succ_self _

/-- Each step of the IO thread brings it nearer to the end of `run`. -/
theorem IoStep.toLeave_lt (h : IoStep conv ex s s') (hs : s.Regular) : s'.toLeave < s.toLeave := by
  have hkept : s'.adapter.ioThread = s.adapter.ioThread → s'.io.toWait < s.io.toWait → s.io ≠ .waits →
      s'.toLeave < s.toLeave := by
    intro hthread hlt hw
    have hr := hs.running hw
    rw [toLeave_running hr, toLeave_running (hthread.trans hr)]
    omega
  cases h with
  | leaves hio h =>
    rw [toLeave_running h.1]
    exact Nat.succ_pos _
  | handlesMessage hio h =>
    obtain ⟨-, -, -, hthread, -, hio'⟩ := handlesMessage_eq h
    refine hkept hthread ?_ (by rw [hio]; exact nofun)
    rw [hio]
    rcases hio' with h | h <;> rw [h] <;> simp [IoPhase.toWait]
  | handlesError hio =>
    refine hkept rfl ?_ (by rw [hio]; exact nofun)
    rw [hio]
    dsimp only
    cases s.adapter.connected <;> simp [IoPhase.toWait]
  | @clears reconnect hio =>
    refine hkept rfl ?_ (by rw [hio]; exact nofun)
    rw [hio]
    cases reconnect <;> exact Nat.lt_succ_self _
  | @tests reconnect hio =>
    refine hkept rfl ?_ (by rw [hio]; exact nofun)
    rw [hio]
    dsimp only
    cases s.adapter.connected <;> cases reconnect <;> simp [IoPhase.toWait, IoPhase.after]
  | @stops reconnect hio =>
    refine hkept rfl ?_ (by rw [hio]; exact nofun)
    rw [hio]
    exact toWait_after reconnect
  | @connects attempt hio =>
    refine hkept (connect_keeps ex .io attempt s.adapter).2.1 ?_ (by rw [hio]; exact nofun)
    rw [hio]
    exact Nat.zero_lt_one

/-- While the user's thread waits in a join, only the IO thread can step, and it comes nearer to the end of `run`. -/
theorem joining_step (hs : s.Regular) (hj : s.Joining) (hst : step conv ex s e = some s') (he : e ≠ .userGoesOn) :
    s'.Joining ∧ s'.toLeave < s.toLeave := by
  have hfree : s.user ≠ .free := by
    rcases hj with ⟨last, hj⟩ | hj <;> rw [hj] <;> exact nofun
  have hends : s.Ends := by
    rcases hj with ⟨last, hj⟩ | hj
    · exact .inl (hs.stopped last hj)
    · exact hs.ends (.inr hj)
  cases step_cases hst with
  | disconnects hu | destroys hu | calls hu => exact absurd hu hfree
  | userGoesOn => exact absurd rfl he
  | takes hw hr hpos => exact absurd hends (not_ends hw hr (.inl hpos))
  | writeCompletes hw hr hpos => exact absurd hends (not_ends hw hr (.inr hpos))
  | ioGoesOn h =>
    refine ⟨?_, h.toLeave_lt hs⟩
    unfold Joining
    rw [h.user]
    exact hj

/-- A join waits for a step of the IO thread, and no longer than that is in `run`. -/
theorem joining_goesOn (hs : s.Regular) (hj : s.Joining) :
    if s.toLeave = 0 then s.userGoesOn.isSome = true
    else s.Undefined conv ex ∨ (s.ioGoesOn conv ex).isSome = true := by
  by_cases hr : s.adapter.ioThread = .running
  · rw [if_neg (by rw [toLeave_running hr]; exact Nat.succ_ne_zero _)]
    unfold ioGoesOn
    cases hio : s.io with
    | waits =>
      have hleaves : s.LeavesRun := by
        refine ⟨hr, ?_⟩
        rcases hj with ⟨last, hj⟩ | hj
        · exact .inl (hs.stopped last hj)
        · rcases hs.ends (.inr hj) with he | ⟨reconnect, he⟩ | ⟨hreads, hwrites, -⟩
          · exact .inl he
          · rw [hio] at he
            cases he
          · exact .inr ⟨.inl hj, hreads, hwrites⟩
      exact .inr (by simp only [if_pos hleaves, Option.isSome_some])
    | handles completion =>
      cases completion with
      | readError attempt => exact .inr rfl
      | message now doc =>
        cases hv : ex.verdict conv now doc with
        | undefined => exact .inl ⟨now, doc, hio, hv⟩
        | readsOn | stops | authenticates | rejected | failed =>
          exact .inr (by simp only [handlesMessage, hv, Option.isSome_some])
    | disconnects reconnect | clears reconnect | stops reconnect | connects attempt => exact .inr rfl
  · have hzero : s.toLeave = 0 := if_neg hr
    rw [if_pos hzero]
    unfold userGoesOn
    rcases hj with ⟨last, hj⟩ | hj
    · simp only [hj, if_neg hr, Option.isSome_some]
    · simp only [hj, if_neg hr, Option.isSome_some]

theorem run_joining {es : List Event} (hs : s.Regular) (hj : s.Joining) (h : Run (step conv ex) s es s')
    (hes : .userGoesOn ∉ es) : s'.Regular ∧ s'.Joining ∧ es.length + s'.toLeave ≤ s.toLeave := by
  induction h with
  | nil => exact ⟨hs, hj, by simp⟩
  | @cons s s₁ s' e es hst _ ih =>
    have hne : e ≠ .userGoesOn := fun he => hes (he ▸ List.mem_cons_self)
    have hrest : .userGoesOn ∉ es := fun he => hes (List.mem_cons_of_mem _ he)
    obtain ⟨hj₁, hlt⟩ := joining_step hs hj hst hne
    obtain ⟨hs', hj', hle⟩ := ih (step_regular hs hst) hj₁ hrest
    refine ⟨hs', hj', ?_⟩
    rw [List.length_cons]
    omega

/-! ## The end -/

theorem step_destroyed (hs : s.Regular) (hd : s.user = .destroyed) (e : Event) : step conv ex s e = none := by
  have hjoined := hs.joined hd
  have hw : s.io = .waits := hs.out (by rw [hjoined]; exact nofun)
  have hnot : ¬ Runs s.adapter := fun hr => by rw [hr.2] at hjoined; cases hjoined
  cases hst : step conv ex s e with
  | none => rfl
  | some s' =>
    exfalso
    cases step_cases hst with
    | disconnects hu | destroys hu | calls hu => rw [hd] at hu; cases hu
    | userGoesOn h =>
      unfold userGoesOn at h
      rw [hd] at h
      cases h
    | takes hw hr | writeCompletes hw hr => exact hnot hr
    | ioGoesOn h =>
      cases h with
      | leaves hio h => rw [h.1] at hjoined; cases hjoined
      | stops hio | handlesMessage hio | handlesError hio | tests hio | clears hio | connects hio =>
        rw [hw] at hio
        cases hio

/-- **Destruction**: from the stop of the context on no completion is taken up, and the only callback that may come is
that of the message being handled. A join ends after at most six steps of the IO thread, which is never stuck in it but
for undefined behaviour. Behind the destructor the IO thread is joined, and nothing can step. -/
theorem run_destroys {es : List Event} (h : Run (step conv ex) ready es s) :
    (s.adapter.iocStopped = true → ∀ es' s', Run (step conv ex) s es' s' →
      (∀ e ∈ es', ¬ e.TakesUp) ∧ s'.adapter.calls.length ≤ s.adapter.calls.length + s.pending) ∧
    (s.Joining → ∀ es' s', Run (step conv ex) s es' s' → .userGoesOn ∉ es' → es'.length + s'.toLeave ≤ 6 ∧
      if s'.toLeave = 0 then s'.userGoesOn.isSome = true
      else s'.Undefined conv ex ∨ (s'.ioGoesOn conv ex).isSome = true) ∧
    (s.user = .destroyed → s.adapter.ioThread = .joined ∧ s.io = .waits ∧ ∀ e, step conv ex s e = none) := by
  have hs := run_regular h
  refine ⟨fun hstop es' s' hr => ?_, fun hj es' s' hr hes => ?_, fun hd => ?_⟩
  · obtain ⟨htakes, hle⟩ := run_stopped hstop hr
    exact ⟨htakes, by omega⟩
  · obtain ⟨hs', hj', hle⟩ := run_joining hs hj hr hes
    exact ⟨hle.trans s.toLeave_le, joining_goesOn hs' hj'⟩
  · have hjoined := hs.joined hd
    exact ⟨hjoined, hs.out (by rw [hjoined]; exact nofun), step_destroyed hs hd⟩

section Example

/-- The adapter is destroyed while the IO thread reconnects. -/
def reconnecting : List Event :=
  [.calls (.connect (.opens none)), .takes (.readError (.opens none)), .ioGoesOn, .ioGoesOn, .ioGoesOn, .destroys,
    .userGoesOn, .ioGoesOn, .ioGoesOn, .ioGoesOn, .userGoesOn]

/-- A message is taken up after the test in the destructor's `disconnect`, which then stops the context. -/
def delivering : List Event :=
  [.calls .registerOrderBookCallback, .calls (.connect (.opens (some "jwt"))), .destroys,
    .takes (.message 7 (some Connection.emptySnapshot)), .userGoesOn, .userGoesOn]

theorem destroyed_at_work :
    (∃ s : Threads ℤ, Run (step default .kraken) ready reconnecting s ∧ s.adapter.connected = true ∧
      s.adapter.ioThread = .joined ∧ ∀ e, step default .kraken s e = none) ∧
    ∃ s s' : Threads ℤ, Run (step default .coinbase) ready delivering s ∧ s.Joining ∧ s.adapter.calls = [] ∧
      Run (step default .coinbase) s [.ioGoesOn, .ioGoesOn] s' ∧ s'.adapter.calls = [.snapshot ⟨"BTC-USD", [], [], 7⟩] ∧
      s'.toLeave = 0 ∧ s'.userGoesOn.isSome = true := by
  constructor
  · have hrun : ∃ s : Threads ℤ, Run (step default .kraken) ready reconnecting s ∧ s.adapter.connected = true ∧
        s.user = .destroyed := ⟨_, run_iff_exec.2 rfl, rfl, rfl⟩
    obtain ⟨s, h, hc, hd⟩ := hrun
    obtain ⟨hjoined, -, hnone⟩ := (run_destroys h).2.2 hd
    exact ⟨s, h, hc, hjoined, hnone⟩
  · have hrun : ∃ s s' : Threads ℤ, Run (step default .coinbase) ready delivering s ∧ s.user = .joins true ∧
        s.adapter.calls = [] ∧ Run (step default .coinbase) s [.ioGoesOn, .ioGoesOn] s' ∧
        s'.adapter.calls = [.snapshot ⟨"BTC-USD", [], [], 7⟩] ∧ s'.toLeave = 0 :=
      ⟨_, _, run_iff_exec.2 rfl, rfl, rfl, run_iff_exec.2 rfl, rfl, rfl⟩
    obtain ⟨s, s', h, hu, hnone, h', hcalls, hzero⟩ := hrun
    have hjoins := ((run_destroys h).2.1 (.inl ⟨true, hu⟩) _ s' h' (by simp)).2
    rw [if_pos hzero] at hjoins
    exact ⟨s, s', h, .inl ⟨true, hu⟩, hnone, h', hcalls, hzero, hjoins⟩

end Example

end Threads

end CryptoHft
