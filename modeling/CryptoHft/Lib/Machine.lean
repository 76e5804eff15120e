import Mathlib.Data.List.Basic
import Mathlib.Data.List.Induction
import Mathlib.Tactic.Common

/-!
# Runs of labelled machines

A machine is a partial step function `σ → ε → Option σ`: the label carries every choice of the environment, and
`none` says the label is not enabled.

* `Run step s es s'`: the labels `es` lead from `s` to `s'`;
* an invariant of the steps is an invariant of the runs (`Run.invariant`), also when the steps only keep it under a
  condition that every step of the run meets (`Run.invariant_along`); where the condition is exact, all states of a run
  have the property if and only if all steps meet it (`Run.always_iff_along`);
* what a step sets, keeps or clears holds at the end of a run when some step set it and all later ones kept it
  (`Run.holds_iff_set`);
* a machine whose steps are steps of another one, or none, has runs of the other one (`Run.simulates`);
* steps that use up a budget which no step refills are at most as many as it (`Run.countP_add_le`);
* a log that every step appends to holds the outputs of the run (`Run.log_eq`);
* a view that the operations of others leave alone, and that determines what its own do to it, cannot tell a list of
  operations from its own part (`view_foldl_filter`);
* the history of a cell (`cell_foldl_eq_some`): when every operation writes the cell, erases it or leaves it alone, the
  cell holds `v` after a list of operations exactly when one of them wrote `v` and no later one touched the cell.
-/

namespace Machine

variable {σ ε : Type} {step : σ → ε → Option σ}

/-! ## Runs -/

/-- The labels `es`, in this order, lead from the first state to the second. -/
inductive Run (step : σ → ε → Option σ) : σ → List ε → σ → Prop
  | nil (s : σ) : Run step s [] s
  | cons {s s' s'' : σ} {e : ε} {es : List ε} (hs : step s e = some s') (hr : Run step s' es s'') :
      Run step s (e :: es) s''

/-- Where the labels lead, if every step is enabled. -/
def exec (step : σ → ε → Option σ) : σ → List ε → Option σ
  | s, [] => some s
  | s, e :: es => (step s e).bind fun s' => exec step s' es

theorem run_iff_exec {s s' : σ} {es : List ε} : Run step s es s' ↔ exec step s es = some s' := by
  constructor
  · intro h
    induction h with
    | nil => rfl
    | cons hs _ ih => rw [exec, hs, Option.bind_some, ih]
  · induction es generalizing s with
    | nil => intro h; cases h; exact .nil _
    | cons e es ih =>
      intro h
      obtain ⟨s₁, hs, h⟩ := Option.bind_eq_some_iff.1 h
      exact .cons hs (ih h)

namespace Run

/-- The labels determine the state reached. -/
theorem functional {s s₁ s₂ : σ} {es : List ε} (h₁ : Run step s es s₁) (h₂ : Run step s es s₂) : s₁ = s₂ :=
  Option.some.inj ((run_iff_exec.1 h₁).symm.trans (run_iff_exec.1 h₂))

theorem append {s s' s'' : σ} {es fs : List ε} (h : Run step s es s') (h' : Run step s' fs s'') :
    Run step s (es ++ fs) s'' := by
  induction h with
  | nil => exact h'
  | cons hs _ ih => exact .cons hs (ih h')

theorem single {s s' : σ} {e : ε} (h : step s e = some s') : Run step s [e] s' := .cons h (.nil _)

/-- A run of `es ++ fs` passes through a state after `es`. -/
theorem split {s s'' : σ} : ∀ {es fs : List ε}, Run step s (es ++ fs) s'' →
    ∃ s', Run step s es s' ∧ Run step s' fs s''
  | [], _, h => ⟨_, .nil _, h⟩
  | _ :: _, _, .cons hs hr => by
    obtain ⟨s', h₁, h₂⟩ := split hr
    exact ⟨s', .cons hs h₁, h₂⟩

/-- The last step of a run. -/
theorem split_last {s s'' : σ} {es : List ε} {e : ε} (h : Run step s (es ++ [e]) s'') :
    ∃ s', Run step s es s' ∧ step s' e = some s'' := by
  obtain ⟨s', h₁, h₂⟩ := h.split
  cases h₂ with
  | cons hs hr => cases hr; exact ⟨s', h₁, hs⟩

/-- What follows a part of a run starts where the part ends. -/
theorem after {s s₁ s' : σ} {es fs : List ε} (h : Run step s (es ++ fs) s') (h₁ : Run step s es s₁) :
    Run step s₁ fs s' := by
  obtain ⟨s₂, h₂, hrest⟩ := h.split
  rw [h₁.functional h₂]
  exact hrest

theorem invariant {I : σ → Prop} (hI : ∀ s e s', I s → step s e = some s' → I s') {s s' : σ} {es : List ε}
    (h : Run step s es s') (hs : I s) : I s' := by
  induction h with
  | nil => exact hs
  | cons hst _ ih => exact ih (hI _ _ _ hs hst)

end Run

/-- Every step of the run of `es` from `s` meets the condition. -/
def Along (step : σ → ε → Option σ) (ok : σ → ε → Prop) (s : σ) (es : List ε) : Prop :=
  ∀ pre e post s', es = pre ++ e :: post → Run step s pre s' → ok s' e

theorem Along.head {ok : σ → ε → Prop} {s : σ} {e : ε} {es : List ε} (h : Along step ok s (e :: es)) : ok s e :=
  h [] e es s rfl (.nil s)

theorem Along.tail {ok : σ → ε → Prop} {s s' : σ} {e : ε} {es : List ε} (h : Along step ok s (e :: es))
    (hs : step s e = some s') : Along step ok s' es := by
  intro pre e' post s'' heq hr
  exact h (e :: pre) e' post s'' (by rw [heq]; rfl) (.cons hs hr)

theorem Along.nil {ok : σ → ε → Prop} {s : σ} : Along step ok s [] := by
  intro pre e post s' heq
  cases pre <;> cases heq

theorem Along.cons {ok : σ → ε → Prop} {s : σ} {e : ε} {es : List ε} (he : ok s e)
    (hes : ∀ s', step s e = some s' → Along step ok s' es) : Along step ok s (e :: es) := by
  intro pre e' post s' heq hr
  cases hr with
  | nil => cases heq; exact he
  | cons hs hr => cases heq; exact hes _ hs _ e' post s' rfl hr

theorem Along.left {ok : σ → ε → Prop} {s : σ} {es fs : List ε} (h : Along step ok s (es ++ fs)) :
    Along step ok s es := by
  intro pre e post s' heq hr
  exact h pre e (post ++ fs) s' (by rw [heq, List.append_assoc]; rfl) hr

/-- Steps that keep an invariant under a condition keep it along every run whose steps meet the condition. -/
theorem Run.invariant_along {I : σ → Prop} {ok : σ → ε → Prop}
    (hI : ∀ s e s', I s → ok s e → step s e = some s' → I s') {s s' : σ} {es : List ε} (h : Run step s es s')
    (hok : Along step ok s es) (hs : I s) : I s' := by
  induction h with
  | nil => exact hs
  | cons hst _ ih => exact ih (hok.tail hst) (hI _ _ _ hs hok.head hst)

/-- **A property of all states of a run** holds exactly when every step meets the condition, if the condition says of
each step from a state with the property whether it keeps it. -/
theorem Run.always_iff_along {J P : σ → Prop} {ok : σ → ε → Prop}
    (hJ : ∀ s e s', J s → step s e = some s' → J s')
    (hstep : ∀ s e s', J s → P s → step s e = some s' → (P s' ↔ ok s e)) {s s' : σ} {es : List ε}
    (h : Run step s es s') (hj : J s) (hp : P s) :
    (∀ pre post t, es = pre ++ post → Run step s pre t → P t) ↔ Along step ok s es := by
  constructor
  · intro hall pre e post s₁ heq hpre
    subst heq
    cases h.after hpre with
    | cons hs _ =>
      have hlast := hall (pre ++ [e]) post _ (by simp) (hpre.append (.single hs))
      have hp₁ := hall pre (e :: post) s₁ rfl hpre
      exact (hstep _ _ _ (hpre.invariant hJ hj) hp₁ hs).1 hlast
  · rintro hok pre post t rfl hpre
    have hkeeps : ∀ s e s', J s ∧ P s → ok s e → step s e = some s' → J s' ∧ P s' := by
      rintro s e s' ⟨hj, hp⟩ hoke hs
      exact ⟨hJ s e s' hj hs, (hstep s e s' hj hp hs).2 hoke⟩
    exact (hpre.invariant_along hkeeps hok.left ⟨hj, hp⟩).2

/-! ## What was set and kept -/

theorem Along.concat {ok : σ → ε → Prop} {s s' : σ} {es : List ε} {e : ε} (h : Along step ok s es)
    (hr : Run step s es s') (he : ok s' e) : Along step ok s (es ++ [e]) := by
  induction hr with
  | nil => exact .cons he fun _ _ => .nil
  | cons hs _ ih =>
    refine .cons h.head fun s₁ hs₁ => ?_
    rw [hs] at hs₁
    cases hs₁
    exact ih (h.tail hs) he

/-- **What was set and kept**: a property that each step sets, keeps or clears, and that does not hold at first, holds at
the end of a run exactly when one of its steps set it and all later ones kept it. -/
theorem Run.holds_iff_set {I M : σ → Prop} {sets keeps : σ → ε → Prop}
    (hI : ∀ s e s', I s → step s e = some s' → I s')
    (hstep : ∀ s e s', I s → step s e = some s' → (M s' ↔ sets s e ∨ keeps s e ∧ M s)) {s s' : σ} {es : List ε}
    (h : Run step s es s') (hi : I s) (hm : ¬ M s) :
    M s' ↔ ∃ pre e post t t', es = pre ++ e :: post ∧ Run step s pre t ∧ step t e = some t' ∧ sets t e ∧
      Along step keeps t' post := by
  constructor
  · induction es using List.reverseRecOn generalizing s' with
    | nil => cases h; exact fun hm' => absurd hm' hm
    | append_singleton es e ih =>
      intro hm'
      obtain ⟨t, hr, hst⟩ := h.split_last
      rcases (hstep t e s' (hr.invariant hI hi) hst).1 hm' with hset | ⟨hkeep, hmt⟩
      · exact ⟨es, e, [], t, s', rfl, hr, hst, hset, .nil⟩
      · obtain ⟨pre, e₀, post, t₀, t₁, rfl, hpre, hst₀, hset, hkeeps⟩ := ih hr hmt
        refine ⟨pre, e₀, post ++ [e], t₀, t₁, by simp, hpre, hst₀, hset, hkeeps.concat ?_ hkeep⟩
        cases hr.after hpre with
        | cons hst₁ hpost =>
          rw [hst₀] at hst₁
          cases hst₁
          exact hpost
  · rintro ⟨pre, e, post, t, t', rfl, hpre, hst, hset, hkeeps⟩
    have hit := hpre.invariant hI hi
    have hmt' : M t' := (hstep t e t' hit hst).2 (Or.inl hset)
    have hrest : Run step t' post s' := by
      cases h.after hpre with
      | cons hst' hpost =>
        rw [hst] at hst'
        cases hst'
        exact hpost
    refine (hrest.invariant_along (I := fun s => I s ∧ M s) ?_ hkeeps ⟨hI _ _ _ hit hst, hmt'⟩).2
    rintro s₁ e₁ s₂ ⟨hi₁, hm₁⟩ hk hs₁
    exact ⟨hI _ _ _ hi₁ hs₁, (hstep _ _ _ hi₁ hs₁).2 (Or.inr ⟨hk, hm₁⟩)⟩

/-! ## Simulations -/

/-- **Forward simulation**: where every step from related states is matched by the step that its label stands for, or
by no step when it stands for none, a run is matched by the run of the labels that its labels stand for. -/
theorem Run.simulates {τ φ : Type} {step' : τ → φ → Option τ} {R : σ → τ → Prop} {ok : σ → ε → Prop}
    (erase : ε → Option φ)
    (hsilent : ∀ s e s' t, R s t → ok s e → step s e = some s' → erase e = none → R s' t)
    (hmatch : ∀ s e s' t f, R s t → ok s e → step s e = some s' → erase e = some f →
      ∃ t', step' t f = some t' ∧ R s' t')
    {s s' : σ} {t : τ} {es : List ε} (h : Run step s es s') (hok : Along step ok s es) (hr : R s t) :
    ∃ t', Run step' t (es.filterMap erase) t' ∧ R s' t' := by
  induction h generalizing t with
  | nil => exact ⟨t, .nil t, hr⟩
  | @cons s s₁ s' e es hs _ ih =>
    cases he : erase e with
    | none =>
      rw [List.filterMap_cons_none he]
      exact ih (hok.tail hs) (hsilent s e s₁ t hr hok.head hs he)
    | some f =>
      obtain ⟨t₁, hs', hr'⟩ := hmatch s e s₁ t f hr hok.head hs he
      obtain ⟨t', hrun, hrel⟩ := ih (hok.tail hs) hr'
      rw [List.filterMap_cons_some he]
      exact ⟨t', .cons hs' hrun, hrel⟩

/-! ## Budgets -/

/-- Where the steps of one kind use up a budget that no step refills, a run has no more of them than the budget. -/
theorem Run.countP_add_le {I : σ → Prop} {ok : σ → ε → Prop} {p : ε → Bool} {budget : σ → ℕ}
    (hstep : ∀ s e s', I s → ok s e → step s e = some s' → I s' ∧ (p e).toNat + budget s' ≤ budget s)
    {s s' : σ} {es : List ε} (h : Run step s es s') (hok : Along step ok s es) (hs : I s) :
    I s' ∧ es.countP p + budget s' ≤ budget s := by
  induction h with
  | nil => exact ⟨hs, by simp⟩
  | @cons s s₁ s' e es hst _ ih =>
    obtain ⟨hs₁, hle⟩ := hstep s e s₁ hs hok.head hst
    obtain ⟨hs', hle'⟩ := ih (hok.tail hst) hs₁
    refine ⟨hs', ?_⟩
    rw [List.countP_cons]
    cases hp : p e <;> simp only [hp, Bool.toNat_true, Bool.toNat_false, Bool.false_eq_true, ↓reduceIte] at hle ⊢ <;>
      omega

/-! ## What a run emits -/

/-- The outputs of the labels along the run of `es` from `s`, in order. -/
def emitted {α : Type} (step : σ → ε → Option σ) (out : σ → ε → List α) : σ → List ε → List α
  | _, [] => []
  | s, e :: es => out s e ++ ((step s e).elim [] fun s' => emitted step out s' es)

/-- A log to which every step of a run appends its output ends with the outputs of the run. -/
theorem Run.log_eq {α : Type} {out : σ → ε → List α} (log : σ → List α) {ok : σ → ε → Prop}
    (hlog : ∀ s e s', ok s e → step s e = some s' → log s' = log s ++ out s e) {s s' : σ} {es : List ε}
    (h : Run step s es s') (hok : Along step ok s es) : log s' = log s ++ emitted step out s es := by
  induction h with
  | nil => rw [emitted, List.append_nil]
  | cons hs _ ih =>
    rw [ih (hok.tail hs), hlog _ _ _ hok.head hs, emitted, hs, Option.elim_some, List.append_assoc]

/-! ## What a view can tell -/

/-- **Unwinding**: a view that the labels of others leave alone, and whose change under its own labels depends on the
view only, sees the same after a list of labels as after the view's own ones. -/
theorem view_foldl_filter {ω α : Type} (act : σ → ω → σ) (view : σ → α) (own : ω → Prop) [DecidablePred own]
    (hown : ∀ s s' x, own x → view s = view s' → view (act s x) = view (act s' x))
    (hother : ∀ s x, ¬ own x → view (act s x) = view s) (xs : List ω) {s s' : σ} (h : view s = view s') :
    view (xs.foldl act s) = view ((xs.filter own).foldl act s') := by
  induction xs generalizing s s' with
  | nil => exact h
  | cons x xs ih =>
    by_cases hx : own x
    · rw [List.filter_cons_of_pos (by simpa using hx), List.foldl_cons, List.foldl_cons]
      exact ih (hown s s' x hx h)
    · rw [List.filter_cons_of_neg (by simpa using hx), List.foldl_cons]
      exact ih ((hother s x hx).trans h)

/-! ## The history of a cell -/

section History

variable {ω V : Type}

/-- What one operation does to a cell. -/
inductive Effect (V : Type)
  | write (v : V)
  | erase
  | keep

def Effect.apply : Effect V → Option V → Option V
  | .write v, _ => some v
  | .erase, _ => none
  | .keep, c => c

/-- The operation `op`, wedged between `pre` and `post`, wrote `v` and nothing in `post` touched the cell. -/
def WrittenLast (step : σ → ω → σ) (effect : σ → ω → Effect V) (s : σ) (ops : List ω) (v : V) : Prop :=
  ∃ pre op post, ops = pre ++ op :: post ∧ effect (pre.foldl step s) op = .write v ∧
    ∀ mid op' rest, post = mid ++ op' :: rest → effect ((pre ++ op :: mid).foldl step s) op' = .keep

variable {step : σ → ω → σ} {effect : σ → ω → Effect V} {s : σ}

/-- Where an element of a list sits after one more element was added at the end. -/
theorem concat_eq_append_cons {ops pre post : List ω} {op op₀ : ω} (h : ops ++ [op] = pre ++ op₀ :: post) :
    (ops = pre ∧ op = op₀ ∧ post = []) ∨ ∃ post', post = post' ++ [op] ∧ ops = pre ++ op₀ :: post' := by
  rcases List.eq_nil_or_concat' post with rfl | ⟨post', x, rfl⟩
  · obtain ⟨rfl, hx⟩ := List.append_inj' h rfl
    cases hx; exact Or.inl ⟨rfl, rfl, rfl⟩
  · have h' : ops ++ [op] = (pre ++ op₀ :: post') ++ [x] := by rw [h]; simp
    obtain ⟨rfl, hx⟩ := List.append_inj' h' rfl
    cases hx; exact Or.inr ⟨post', rfl, rfl⟩

theorem writtenLast_of_write {ops : List ω} {op : ω} {v : V} (h : effect (ops.foldl step s) op = .write v) :
    WrittenLast step effect s (ops ++ [op]) v :=
  ⟨ops, op, [], rfl, h, fun mid _ _ he => by cases mid <;> cases he⟩

theorem WrittenLast.keep {ops : List ω} {op : ω} {v : V} (hk : effect (ops.foldl step s) op = .keep)
    (h : WrittenLast step effect s ops v) : WrittenLast step effect s (ops ++ [op]) v := by
  obtain ⟨pre, op₀, post, rfl, hw, hp⟩ := h
  refine ⟨pre, op₀, post ++ [op], by simp, hw, fun mid op' rest he => ?_⟩
  rcases concat_eq_append_cons he with ⟨rfl, rfl, rfl⟩ | ⟨rest', rfl, rfl⟩
  · exact hk
  · exact hp mid op' rest' rfl

/-- The last operation wrote the value, or it left the cell alone and the value was written before. -/
theorem WrittenLast.last {ops : List ω} {op : ω} {v : V} (h : WrittenLast step effect s (ops ++ [op]) v) :
    effect (ops.foldl step s) op = .write v ∨
      effect (ops.foldl step s) op = .keep ∧ WrittenLast step effect s ops v := by
  obtain ⟨pre, op₀, post, he, hw, hp⟩ := h
  rcases concat_eq_append_cons he with ⟨rfl, rfl, rfl⟩ | ⟨post', rfl, rfl⟩
  · exact Or.inl hw
  · refine Or.inr ⟨hp post' op [] rfl, pre, op₀, post', rfl, hw, fun mid op' rest hr => ?_⟩
    exact hp mid op' (rest ++ [op]) (by rw [hr]; simp)

/-- **The history of a cell** that starts empty. -/
theorem cell_foldl_eq_some {cell : σ → Option V} (hcell : ∀ s op, cell (step s op) = (effect s op).apply (cell s))
    (hs : cell s = none) (ops : List ω) (v : V) :
    cell (ops.foldl step s) = some v ↔ WrittenLast step effect s ops v := by
  induction ops using List.reverseRecOn with
  | nil =>
    constructor
    · intro h
      rw [List.foldl_nil, hs] at h
      cases h
    · rintro ⟨pre, _, _, he, _⟩
      cases pre <;> cases he
  | append_singleton ops op ih =>
    rw [List.foldl_append, List.foldl_cons, List.foldl_nil, hcell]
    constructor
    · intro h
      cases hE : effect (ops.foldl step s) op with
      | write w => rw [hE] at h; cases h; exact writtenLast_of_write hE
      | erase => rw [hE] at h; cases h
      | keep => rw [hE] at h; exact (ih.1 h).keep hE
    · intro h
      rcases h.last with hw | ⟨hk, hl⟩
      · rw [hw]; rfl
      · rw [hk]; exact ih.2 hl

end History

end Machine
