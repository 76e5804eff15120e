import CryptoHft.Core.TradingSystem

/-!
# The program

`main` loads the configuration, initialises and starts a trading system, and then loops for ever; the handlers of the two
signals stop the system.

As `ConfigManager` finds neither of the two keys that the system reads, the program is the same for every configuration:
it returns 1 exactly if there is no configuration to load, and otherwise runs, through any signals that come one at a time
once the handlers are installed, without an exchange and without a book (`main_idle`).
-/

namespace CryptoHft

/-- What the program meets: the file system, the conversions of the YAML library, and how adapters meet their calls. -/
structure Host (D : Type) where
  fileExists : String → Bool
  load : String → Option Yaml
  conv : YamlConversions D
  conduct : Nat → Conduct

/-- The signals with a handler. -/
inductive Signal
  | SIGINT
  | SIGTERM
deriving DecidableEq, Repr

/-- `main` has returned, or is in its last loop, or an exception has left the handler of a signal. -/
inductive Program (T D : Type) [LinearOrder D]
  | returned (code : Nat)
  | loops (config : ConfigManager) (registry : List String) (sys : TradingSystem T D)
  | terminated

namespace Program

variable {T D : Type} [LinearOrder D]

def configPath : String := "config/config.yaml"

/-- `trading_system->initialize()`, and `start()`, which does nothing. -/
def run (host : Host D) (config : ConfigManager) : Program T D :=
  match readSettings host.conv config with
  | .error _ => .returned 1
  | .ok settings =>
    match (TradingSystem.constructed : TradingSystem T D).initializeSystem settings host.conduct [""] with
    | ((registry, sys), true) => if sys.start then .loops config registry sys else .returned 1
    | (_, false) => .returned 1

def main (host : Host D) : Program T D :=
  if host.fileExists configPath then
    match ConfigManager.create.loadFromFile host.load configPath with
    | (config, true) => run host config
    | (_, false) => .returned 1
  else .returned 1

/-- The handler of a signal. The system reads the configuration again when it stops. -/
def handler (host : Host D) : Program T D → Signal → Program T D
  | .returned code, _ => .returned code
  | .terminated, _ => .terminated
  | .loops config registry sys, _ =>
    match readSettings host.conv config with
    | .ok settings => .loops config registry (sys.stop settings)
    | .error _ => .terminated

/-- There is a configuration, and it loads. -/
def Configured (host : Host D) : Prop := host.fileExists configPath = true ∧ ∃ config, host.load configPath = some config

/-- No adapter, and no book. -/
def Idle (sys : TradingSystem T D) : Prop :=
  sys.adapters = [] ∧ ∀ engine, sys.marketDataEngine = some engine → ∀ x, engine.getOrderBook x = none

theorem stop_idle {sys : TradingSystem T D} (h : Idle sys) (settings : Settings) : Idle (sys.stop settings) := by
  refine ⟨?_, fun engine he => by cases he⟩
  rw [TradingSystem.stop, h.1, List.map_nil]

/-- Any configuration that loads starts the same system. -/
theorem run_eq (host : Host D) (config : ConfigManager) :
    ∃ (registry : List String) (sys : TradingSystem T D), run host config = .loops config registry sys ∧ Idle sys := by
  have hclash : ¬ TradingSystem.Clash ⟨false, []⟩ [""] := by
    rintro (⟨he, -⟩ | hm)
    · cases he
    · exact absurd hm (by decide)
  obtain ⟨hinit, -⟩ := TradingSystem.initializeSystem_of_not_clash hclash host.conduct
    (TradingSystem.constructed : TradingSystem T D)
  rw [run, readSettings_eq]
  simp only [hinit]
  refine ⟨_, _, rfl, rfl, fun engine he x => ?_⟩
  cases he
  rfl

theorem main_eq (host : Host D) :
    (Configured host ∧ ∃ (config : ConfigManager) (registry : List String) (sys : TradingSystem T D),
        main host = .loops config registry sys ∧ Idle sys) ∨
      ¬ Configured host ∧ (main host : Program T D) = .returned 1 := by
  unfold main
  by_cases hf : host.fileExists configPath = true
  · rw [if_pos hf]
    cases hl : host.load configPath with
    | none =>
      refine .inr ⟨fun hc => ?_, by simp only [ConfigManager.loadFromFile, hl]⟩
      obtain ⟨config, hconfig⟩ := hc.2
      rw [hl] at hconfig
      cases hconfig
    | some tree =>
      refine .inl ⟨⟨hf, tree, hl⟩, ?_⟩
      simp only [ConfigManager.loadFromFile, hl]
      obtain ⟨registry, sys, he, hidle⟩ := run_eq (T := T) host ⟨tree, configPath⟩
      exact ⟨_, registry, sys, he, hidle⟩
  · rw [if_neg hf]
    exact .inr ⟨fun hc => hf hc.1, rfl⟩

/-- **The program is idle**: for every configuration and every sequence of signals, it has returned 1 if there was none
to load, and else it loops, without an exchange and without a book. -/
theorem main_idle (host : Host D) (signals : List Signal) :
    (¬ Configured host → signals.foldl (handler host) (main host : Program T D) = .returned 1) ∧
      (Configured host → ∃ (config : ConfigManager) (registry : List String) (sys : TradingSystem T D),
        signals.foldl (handler host) (main host) = .loops config registry sys ∧ Idle sys) := by
  rcases main_eq (T := T) host with ⟨hc, config, registry, sys, he, hidle⟩ | ⟨hc, he⟩
  · refine ⟨fun hn => absurd hc hn, fun _ => ?_⟩
    rw [he]
    clear he
    induction signals generalizing sys with
    | nil => exact ⟨config, registry, sys, rfl, hidle⟩
    | cons signal signals ih =>
      rw [List.foldl_cons, handler, readSettings_eq]
      exact ih _ (stop_idle hidle _)
  · refine ⟨fun _ => ?_, fun h => absurd h hc⟩
    rw [he]
    induction signals with
    | nil => rfl
    | cons signal signals ih => exact ih

end Program

end CryptoHft
