import CryptoHft.Core.TradingSystem

/-!
# Starting again

The registry of loggers belongs to the process: neither `stop` nor the destruction of a system takes a name out of it.
So the first `initialize` of a process is the only one that returns true, and one that follows a stop or a destruction
renews the system exactly when none came before it (`restarts_iff`).
-/

namespace CryptoHft

open Machine

/-- The registry of the loggers, and the trading system, if there is one. -/
structure Process (T D : Type) [LinearOrder D] where
  registry : List String
  system : Option (TradingSystem T D)

namespace Process

variable {T D : Type} [LinearOrder D]

/-- The default logger has an empty name. -/
def fresh : Process T D := ⟨[""], none⟩

inductive Event
  | create
  | initializeSystem (conduct : Nat → Conduct)
  | start
  | stop
  | destroy

/-- A system is created where there is none. Its destructor stops it. -/
def step (settings : Settings) (p : Process T D) : Event → Option (Process T D)
  | .create =>
    match p.system with
    | none => some { p with system := some .constructed }
    | some _ => none
  | .initializeSystem conduct =>
    p.system.map fun sys =>
      let result := sys.initializeSystem settings conduct p.registry
      ⟨result.1.1, some result.1.2⟩
  | .start => p.system.map fun sys => { p with system := some sys }
  | .stop => p.system.map fun sys => { p with system := some (sys.stop settings) }
  | .destroy => p.system.map fun _ => { p with system := none }

/-- A result of `initialize`: true, one adapter for each exchange that is enabled, and a fresh engine. -/
structure Renewed (settings : Settings) (result : (List String × TradingSystem T D) × Bool) : Prop where
  returned : result.2 = true
  adapters : result.1.2.adapters.map Prod.fst = if settings.coinbaseEnabled then [.coinbase] else []
  engine : result.1.2.marketDataEngine = some (MarketDataEngine.constructed.initializeEngine settings.symbols)

/-- The events end with a stop or a destruction, up to events other than `initialize`. -/
def FollowsStop (pre : List Event) : Prop :=
  ∃ before e after, pre = before ++ e :: after ∧ (e = .stop ∨ e = .destroy) ∧
    ∀ conduct, .initializeSystem conduct ∉ after

/-- Each `initialize` of the run that follows a stop or a destruction renews the system. -/
def Restarts (T D : Type) [LinearOrder D] (settings : Settings) (es : List Event) : Prop :=
  ∀ pre conduct post (p : Process T D) sys, es = pre ++ .initializeSystem conduct :: post → FollowsStop pre →
    Run (step settings) fresh pre p → p.system = some sys →
      Renewed settings (sys.initializeSystem settings conduct p.registry)

/-- No such `initialize` has another one before it. -/
def InitializesOnce (es : List Event) : Prop :=
  ∀ pre conduct post, es = pre ++ .initializeSystem conduct :: post → FollowsStop pre →
    ∀ conduct', .initializeSystem conduct' ∉ pre

variable {settings : Settings} {p p' : Process T D} {e : Event}

/-! ## Steps -/

/-- A step that is no `initialize` leaves the registry alone, and a system that is new, as it was, or stopped. -/
structure Keeps (settings : Settings) (p p' : Process T D) : Prop where
  registry : p'.registry = p.registry
  system : ∀ sys', p'.system = some sys' → sys' = .constructed ∨
    ∃ sys, p.system = some sys ∧ (sys' = sys ∨ sys' = sys.stop settings)

theorem step_cases (hs : step settings p e = some p') :
    (∃ conduct sys, e = .initializeSystem conduct ∧ p.system = some sys ∧
        p' = ⟨(sys.initializeSystem settings conduct p.registry).1.1,
          some (sys.initializeSystem settings conduct p.registry).1.2⟩) ∨
      (∀ conduct, e ≠ .initializeSystem conduct) ∧ Keeps settings p p' := by
  cases e with
  | create =>
    simp only [step] at hs
    split at hs
    · cases hs
      exact .inr ⟨by simp, rfl, fun sys' h => .inl (Option.some.inj h).symm⟩
    · cases hs
  | initializeSystem conduct =>
    obtain ⟨sys, hsys, rfl⟩ := Option.map_eq_some_iff.1 hs
    exact .inl ⟨conduct, sys, rfl, hsys, rfl⟩
  | start =>
    obtain ⟨sys, hsys, rfl⟩ := Option.map_eq_some_iff.1 hs
    exact .inr ⟨by simp, rfl, fun sys' h => .inr ⟨sys, hsys, .inl (Option.some.inj h).symm⟩⟩
  | stop =>
    obtain ⟨sys, hsys, rfl⟩ := Option.map_eq_some_iff.1 hs
    exact .inr ⟨by simp, rfl, fun sys' h => .inr ⟨sys, hsys, .inr (Option.some.inj h).symm⟩⟩
  | destroy =>
    obtain ⟨sys, -, rfl⟩ := Option.map_eq_some_iff.1 hs
    exact .inr ⟨by simp, rfl, fun sys' h => by cases h⟩

/-- Where the name of the adapter's logger is registered, so is that of the engine's. -/
def Paired (p : Process T D) : Prop := "coinbase_adapter" ∈ p.registry → "market_data_engine" ∈ p.registry

theorem engine_mem_initializeSystem (h : Paired p) (sys : TradingSystem T D) (conduct : Nat → Conduct) :
    "market_data_engine" ∈ (sys.initializeSystem settings conduct p.registry).1.1 := by
  by_cases hclash : TradingSystem.Clash settings p.registry
  · have hmem : "market_data_engine" ∈ p.registry := by
      rcases hclash with ⟨-, hc⟩ | hm
      · exact h hc
      · exact hm
    exact (TradingSystem.initializeSystem_of_clash hclash conduct sys).2.2 _ hmem
  · rw [(TradingSystem.initializeSystem_of_not_clash hclash conduct sys).1]
    exact List.mem_cons_self

theorem step_paired (h : Paired p) (hs : step settings p e = some p') : Paired p' := by
  rcases step_cases hs with ⟨conduct, sys, rfl, -, rfl⟩ | ⟨-, hkeep⟩
  · exact fun _ => engine_mem_initializeSystem h sys conduct
  · rw [Paired, hkeep.registry]
    exact h

theorem step_engine_mem (h : "market_data_engine" ∈ p.registry) (hs : step settings p e = some p') :
    "market_data_engine" ∈ p'.registry := by
  rcases step_cases hs with ⟨conduct, sys, rfl, -, rfl⟩ | ⟨-, hkeep⟩
  · exact engine_mem_initializeSystem (fun _ => h) sys conduct
  · rw [hkeep.registry]
    exact h

/-- As long as there was no `initialize`, no logger is registered and no adapter made. -/
def Untouched (p : Process T D) : Prop := p.registry = [""] ∧ ∀ sys, p.system = some sys → sys.adapters = []

theorem step_untouched (h : Untouched p) (he : ∀ conduct, e ≠ .initializeSystem conduct)
    (hs : step settings p e = some p') : Untouched p' := by
  rcases step_cases hs with ⟨conduct, sys, rfl, -, -⟩ | ⟨-, hkeep⟩
  · exact absurd rfl (he conduct)
  · refine ⟨hkeep.registry.trans h.1, fun sys' hsys' => ?_⟩
    rcases hkeep.system sys' hsys' with rfl | ⟨sys, hsys, rfl | rfl⟩
    · rfl
    · exact h.2 _ hsys
    · rw [TradingSystem.stop, h.2 sys hsys, List.map_nil]

/-! ## Runs -/

variable {pre es : List Event}

theorem run_untouched (h : Run (step settings) fresh pre p) (hno : ∀ conduct, .initializeSystem conduct ∉ pre) :
    Untouched p := by
  have hstart : Untouched (fresh : Process T D) := ⟨rfl, fun sys hsys => by cases hsys⟩
  have hnone : Along (step settings) (fun _ e => ∀ conduct, e ≠ .initializeSystem conduct) (fresh : Process T D) pre := by
    rintro before _ after p₁ rfl - conduct rfl
    exact hno conduct (by simp)
  exact h.invariant_along (I := Untouched) (fun _ _ _ hu he hs => step_untouched hu he hs) hnone hstart

/-- After an `initialize` the name of the engine's logger is in the registry, whatever came then. -/
theorem run_engine_mem (h : Run (step settings) fresh pre p) {conduct : Nat → Conduct}
    (hin : .initializeSystem conduct ∈ pre) : "market_data_engine" ∈ p.registry := by
  obtain ⟨before, after, rfl⟩ := List.append_of_mem hin
  obtain ⟨p₁, hbefore, hrest⟩ := h.split
  have hname : "coinbase_adapter" ∉ [""] := by decide
  have hstart : Paired (fresh : Process T D) := fun hm => absurd hm hname
  have hpaired : Paired p₁ := hbefore.invariant (I := Paired) (fun _ _ _ hp hs => step_paired hp hs) hstart
  cases hrest with
  | cons hs hafter =>
    refine hafter.invariant (I := fun p => "market_data_engine" ∈ p.registry) (fun _ _ _ hm hs => step_engine_mem hm hs) ?_
    rcases step_cases hs with ⟨conduct', sys, -, -, rfl⟩ | ⟨hne, -⟩
    · exact engine_mem_initializeSystem hpaired sys conduct'
    · exact absurd rfl (hne conduct)

/-- An `initialize` renews the system exactly when none came before it. -/
theorem renewed_iff (h : Run (step settings) fresh pre p) {sys : TradingSystem T D} (hsys : p.system = some sys)
    (conduct : Nat → Conduct) : Renewed settings (sys.initializeSystem settings conduct p.registry) ↔
      ∀ conduct', .initializeSystem conduct' ∉ pre := by
  constructor
  · intro hr conduct' hin
    have hclash : TradingSystem.Clash settings p.registry := .inr (run_engine_mem h hin)
    have hfalse := (TradingSystem.initializeSystem_of_clash hclash conduct sys).1
    rw [hr.returned] at hfalse
    cases hfalse
  · intro hno
    obtain ⟨hreg, hadapters⟩ := run_untouched h hno
    have hclash : ¬ TradingSystem.Clash settings p.registry := by
      rw [hreg]
      rintro (⟨-, hm⟩ | hm) <;> exact absurd hm (by decide)
    rw [(TradingSystem.initializeSystem_of_not_clash hclash conduct sys).1]
    refine ⟨rfl, ?_, rfl⟩
    rw [TradingSystem.withAdapters, hadapters sys hsys]
    split
    · rfl
    · simp [TradingSystem.bringUps, hadapters sys hsys]

/-- **Starting again.** In a run of a process, every `initialize` after a stop or a destruction renews the system if and
only if none of these comes after another `initialize`. -/
theorem restarts_iff (h : Run (step settings) (fresh : Process T D) es p) :
    Restarts T D settings es ↔ InitializesOnce es := by
  constructor
  · rintro hall pre conduct post rfl hstop
    obtain ⟨p₁, hpre, hrest⟩ := h.split
    cases hrest with
    | cons hs _ =>
      rcases step_cases hs with ⟨_, sys, -, hsys, -⟩ | ⟨hne, -⟩
      · exact (renewed_iff hpre hsys conduct).1 (hall pre conduct post p₁ sys rfl hstop hpre hsys)
      · exact absurd rfl (hne conduct)
  · intro honce pre conduct post p₁ sys heq hstop hpre hsys
    exact (renewed_iff hpre hsys conduct).2 (honce pre conduct post heq hstop)

section Example

def reachable : Nat → Conduct := fun _ => ⟨.opens (some "jwt"), false⟩

/-- A stop before the first `initialize`. -/
theorem stop_first_restarts :
    Restarts ℕ ℤ TradingSystem.enabled [.create, .stop, .initializeSystem reachable] := by
  have hrun : ∃ p : Process ℕ ℤ, Run (step TradingSystem.enabled) fresh
      [.create, .stop, .initializeSystem reachable] p := ⟨_, run_iff_exec.2 rfl⟩
  obtain ⟨p, h⟩ := hrun
  refine (restarts_iff h).2 ?_
  rintro pre conduct post heq - conduct' hin
  rcases pre with _ | ⟨_, _ | ⟨_, _ | ⟨_, pre⟩⟩⟩
  · cases hin
  · cases heq
  · cases heq
    simp at hin
  · simp at heq

/-- The second `initialize` returns false: the name of the engine's logger is taken. -/
theorem second_initialize_fails :
    ∃ (p : Process ℕ ℤ) (sys : TradingSystem ℕ ℤ),
      Run (step ⟨false, []⟩) fresh [.create, .initializeSystem reachable, .stop] p ∧ p.system = some sys ∧
        (sys.initializeSystem ⟨false, []⟩ reachable p.registry).2 = false ∧
        ¬ Restarts ℕ ℤ ⟨false, []⟩ [.create, .initializeSystem reachable, .stop, .initializeSystem reachable] := by
  have hrun : Run (step ⟨false, []⟩) (fresh : Process ℕ ℤ) [.create, .initializeSystem reachable, .stop]
      ⟨["market_data_engine", ""], some ⟨[], none⟩⟩ := run_iff_exec.2 rfl
  have hfalse : ((⟨[], none⟩ : TradingSystem ℕ ℤ).initializeSystem ⟨false, []⟩ reachable
      ["market_data_engine", ""]).2 = false := rfl
  refine ⟨_, _, hrun, rfl, hfalse, fun h => ?_⟩
  have hstop : FollowsStop [.create, .initializeSystem reachable, .stop] :=
    ⟨[.create, .initializeSystem reachable], .stop, [], rfl, .inl rfl, fun _ hin => by cases hin⟩
  have hrenewed := h _ reachable [] _ _ rfl hstop hrun rfl
  rw [hrenewed.returned] at hfalse
  cases hfalse

end Example

end Process

end CryptoHft
