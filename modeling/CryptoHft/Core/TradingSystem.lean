import CryptoHft.Core.MarketDataEngine
import CryptoHft.Exchanges.Connection
import CryptoHft.Infra.Lookup

/-!
# The trading system

`initialize` creates the adapters and the engine, connects every adapter and subscribes. It catches exceptions, and
drops what the adapters return: so it reports their failures exactly when it fails for another reason, or there are none
(`initialize_reports_iff`). The exceptions are those of the loggers that adapters and engine create, under names that may
be in the registry of the process.
-/

namespace CryptoHft

/-- What `initialize` reads from the configuration. -/
structure Settings where
  coinbaseEnabled : Bool
  symbols : List String

def readSettings {D : Type} (conv : YamlConversions D) (cm : ConfigManager) : Except ConfigError Settings := do
  let coinbaseEnabled ← cm.getBoolOr conv "exchanges.coinbase.enabled" false
  let symbols ← cm.getStringVector conv "market_data.symbols"
  return { coinbaseEnabled, symbols }

/-- The lookups of `ConfigManager` find neither key: no exchange is enabled, and there are no symbols. -/
theorem readSettings_eq {D : Type} (conv : YamlConversions D) (cm : ConfigManager) :
    readSettings conv cm = .ok ⟨false, []⟩ := by
  have henabled : cm.getNode (".".intercalate ["exchanges", "coinbase", "enabled"]) = .null :=
    ConfigManager.getNode_segments cm (by simp) (by decide)
  have hsymbols : cm.getNode (".".intercalate ["market_data", "symbols"]) = .null :=
    ConfigManager.getNode_segments cm (by simp) (by decide)
  have hkey : ".".intercalate ["exchanges", "coinbase", "enabled"] = "exchanges.coinbase.enabled" := by decide
  have hkey' : ".".intercalate ["market_data", "symbols"] = "market_data.symbols" := by decide
  rw [hkey] at henabled
  rw [hkey'] at hsymbols
  simp only [readSettings, ConfigManager.getBoolOr, ConfigManager.getScalarOr, ConfigManager.getScalar,
    ConfigManager.getStringVector, henabled, hsymbols]
  rfl

/-- How an adapter meets its calls: how its connect ends, and whether its subscription throws. -/
structure Conduct where
  attempt : Attempt
  subscribeThrows : Bool

structure TradingSystem (T D : Type) [LinearOrder D] where
  adapters : List (Exchange × Adapter D)
  marketDataEngine : Option (MarketDataEngine T D)

/-- `spdlog::stdout_color_mt(name)`, which throws for a name in the registry. -/
def stdoutColorMt (name : String) (registry : List String) : Option (List String) :=
  if name ∈ registry then none else some (name :: registry)

/-- The calls of `connect` and `subscribe` on an adapter: what they return, and the adapter they leave. -/
structure BringUp (D : Type) where
  adapter : Exchange × Adapter D
  connected : Bool
  subscribed : Bool

/-- The adapter gets its callbacks, connects and subscribes. -/
def bringUp {D : Type} (symbols : List String) (c : Conduct) (a : Exchange × Adapter D) : BringUp D :=
  let s := a.2.registerOrderBookCallback.registerOrderBookDeltaCallback
  let connected := a.1.connect .user c.attempt s
  let subscribed := if c.subscribeThrows then (connected.1, false) else a.1.subscribe symbols connected.1
  ⟨(a.1, subscribed.1), connected.2, subscribed.2⟩

namespace TradingSystem

variable {T D : Type} [LinearOrder D]

/-- As constructed. -/
def constructed : TradingSystem T D := ⟨[], none⟩

/-! ## initialize -/

def initializeExchanges (settings : Settings) (registry : List String) (sys : TradingSystem T D) :
    Option (List String × TradingSystem T D) :=
  if settings.coinbaseEnabled then
    (stdoutColorMt "coinbase_adapter" registry).map fun registry =>
      (registry, { sys with adapters := sys.adapters ++ [(.coinbase, Adapter.constructed)] })
  else some (registry, sys)

/-- The adapters are brought up one after another. -/
def bringUps (settings : Settings) (conduct : Nat → Conduct) (sys : TradingSystem T D) : List (BringUp D) :=
  sys.adapters.mapIdx fun i a => bringUp settings.symbols (conduct i) a

/-- The engine comes first; what the calls on the adapters return is dropped. -/
def initializeMarketData (settings : Settings) (conduct : Nat → Conduct) (registry : List String)
    (sys : TradingSystem T D) : Option (List String × TradingSystem T D) :=
  (stdoutColorMt "market_data_engine" registry).map fun registry =>
    (registry,
      { adapters := (sys.bringUps settings conduct).map BringUp.adapter
        marketDataEngine := some (MarketDataEngine.constructed.initializeEngine settings.symbols) })

/-- `initialize`. What was done before an exception stays. -/
def initializeSystem (settings : Settings) (conduct : Nat → Conduct) (registry : List String)
    (sys : TradingSystem T D) : (List String × TradingSystem T D) × Bool :=
  match initializeExchanges settings registry sys with
  | none => ((registry, sys), false)
  | some (registry, sys) =>
    match initializeMarketData settings conduct registry sys with
    | none => ((registry, sys), false)
    | some (registry, sys) => ((registry, sys), true)

/-- The calls on the adapters that `initialize` makes. -/
def calls (settings : Settings) (conduct : Nat → Conduct) (registry : List String) (sys : TradingSystem T D) :
    List (BringUp D) :=
  match initializeExchanges settings registry sys with
  | none => []
  | some (registry, sys) =>
    match stdoutColorMt "market_data_engine" registry with
    | none => []
    | some _ => sys.bringUps settings conduct

/-! ## start and stop -/

def start (_sys : TradingSystem T D) : Bool := true

/-- The adapters stay. -/
def stop (settings : Settings) (sys : TradingSystem T D) : TradingSystem T D where
  adapters := sys.adapters.map fun a => (a.1, ((a.1.unsubscribe settings.symbols a.2).1).disconnect .user)
  marketDataEngine := none

/-! ## What initialize does -/

/-- A name that `initialize` gives to a logger is in the registry. -/
def Clash (settings : Settings) (registry : List String) : Prop :=
  settings.coinbaseEnabled = true ∧ "coinbase_adapter" ∈ registry ∨ "market_data_engine" ∈ registry

/-- The system with the adapters that the configuration enables. -/
def withAdapters (settings : Settings) (sys : TradingSystem T D) : TradingSystem T D :=
  if settings.coinbaseEnabled then { sys with adapters := sys.adapters ++ [(.coinbase, Adapter.constructed)] } else sys

/-- The registry with the names of the loggers that `initialize` creates. -/
def withLoggers (settings : Settings) (registry : List String) : List String :=
  "market_data_engine" :: if settings.coinbaseEnabled then "coinbase_adapter" :: registry else registry

variable {settings : Settings} {conduct : Nat → Conduct} {registry : List String} {sys : TradingSystem T D}

theorem initializeExchanges_of_not_mem (h : ¬ (settings.coinbaseEnabled = true ∧ "coinbase_adapter" ∈ registry)) :
    sys.initializeExchanges settings registry =
      some (if settings.coinbaseEnabled then "coinbase_adapter" :: registry else registry, sys.withAdapters settings) := by
  unfold initializeExchanges withAdapters
  split
  · next he =>
    have hn : "coinbase_adapter" ∉ registry := fun hm => h ⟨he, hm⟩
    simp [stdoutColorMt, hn]
  · rfl

/-- With a clash an exception ends `initialize` before any call on an adapter. Names stay in the registry. -/
theorem initializeSystem_of_clash (h : Clash settings registry) (conduct : Nat → Conduct) (sys : TradingSystem T D) :
    (sys.initializeSystem settings conduct registry).2 = false ∧ sys.calls settings conduct registry = [] ∧
      ∀ name ∈ registry, name ∈ (sys.initializeSystem settings conduct registry).1.1 := by
  unfold initializeSystem calls
  by_cases hc : settings.coinbaseEnabled = true ∧ "coinbase_adapter" ∈ registry
  · have hnone : sys.initializeExchanges settings registry = none := by
      simp [initializeExchanges, stdoutColorMt, hc.1, hc.2]
    rw [hnone]
    exact ⟨rfl, rfl, fun _ hm => hm⟩
  · have hmem : "market_data_engine" ∈
        (if settings.coinbaseEnabled then "coinbase_adapter" :: registry else registry) := by
      split
      · exact List.mem_cons_of_mem _ (h.resolve_left hc)
      · exact h.resolve_left hc
    rw [initializeExchanges_of_not_mem hc]
    simp only [initializeMarketData, stdoutColorMt, if_pos hmem, Option.map_none, true_and]
    intro name hm
    split
    · exact List.mem_cons_of_mem _ hm
    · exact hm

/-- Without one, every adapter is brought up and `initialize` returns true. -/
theorem initializeSystem_of_not_clash (h : ¬ Clash settings registry) (conduct : Nat → Conduct)
    (sys : TradingSystem T D) :
    sys.initializeSystem settings conduct registry =
        ((withLoggers settings registry,
          { adapters := ((sys.withAdapters settings).bringUps settings conduct).map BringUp.adapter
            marketDataEngine := some (MarketDataEngine.constructed.initializeEngine settings.symbols) }), true) ∧
      sys.calls settings conduct registry = (sys.withAdapters settings).bringUps settings conduct := by
  obtain ⟨hc, hm⟩ := not_or.1 h
  have hmem : "market_data_engine" ∉
      (if settings.coinbaseEnabled then "coinbase_adapter" :: registry else registry) := by
    split
    · exact List.not_mem_cons_of_ne_of_not_mem (by decide) hm
    · exact hm
  unfold initializeSystem calls
  rw [initializeExchanges_of_not_mem hc]
  simp only [initializeMarketData, stdoutColorMt, if_neg hmem, Option.map_some, withLoggers, and_self]

/-! ## What initialize reports -/

section BringUp

omit [LinearOrder D]

theorem connect_reports (ex : Exchange) (caller : Caller) (attempt : Attempt) (s : Adapter D) :
    (ex.connect caller attempt s).2 = (ex.connect caller attempt s).1.connected ∧
      ((ex.connect caller attempt s).2 = true ↔ s.connected = true ∨ Connection.Succeeds ex attempt) := by
  cases hc : s.connected with
  | true =>
    rw [Connection.connect_connected hc]
    exact ⟨hc.symm, iff_of_true rfl (.inl rfl)⟩
  | false =>
    by_cases ha : Connection.Succeeds ex attempt
    · obtain ⟨writes, written, he⟩ := Connection.connect_succeeds caller hc ha
      rw [he]
      exact ⟨rfl, iff_of_true rfl (.inr ha)⟩
    · obtain ⟨transport, written, he⟩ := Connection.connect_fails caller hc ha
      rw [he]
      exact ⟨hc.symm, by simp [ha]⟩

theorem subscribe_reports (ex : Exchange) (symbols : List String) (s : Adapter D) :
    (ex.subscribe symbols s).2 = s.connected ∧ (ex.subscribe symbols s).1.connected = s.connected := by
  have hrequest : ∀ message, (s.request message).2 = s.connected ∧ (s.request message).1.connected = s.connected := by
    intro message
    unfold Adapter.request
    split
    · next hc => exact ⟨hc.symm, rfl⟩
    · next hc => exact ⟨((Bool.not_eq_true _).mp hc).symm, rfl⟩
  cases ex <;> exact hrequest _

/-- What bringing up an adapter reports, and whether the adapter is connected afterwards. -/
theorem bringUp_reports (symbols : List String) (c : Conduct) (a : Exchange × Adapter D) :
    (bringUp symbols c a).connected = (bringUp symbols c a).adapter.2.connected ∧
      (bringUp symbols c a).subscribed = ((bringUp symbols c a).connected && !c.subscribeThrows) ∧
      ((bringUp symbols c a).connected = true ↔ a.2.connected = true ∨ Connection.Succeeds a.1 c.attempt) := by
  obtain ⟨hconn, hiff⟩ := connect_reports a.1 .user c.attempt
    a.2.registerOrderBookCallback.registerOrderBookDeltaCallback
  unfold bringUp
  cases hthrows : c.subscribeThrows with
  | true => exact ⟨hconn, (Bool.and_false _).symm, hiff⟩
  | false =>
    obtain ⟨hsub, hsame⟩ := subscribe_reports a.1 symbols
      (a.1.connect .user c.attempt a.2.registerOrderBookCallback.registerOrderBookDeltaCallback).1
    refine ⟨hconn.trans hsame.symm, ?_, hiff⟩
    rw [Bool.not_false, Bool.and_true]
    exact hsub.trans hconn.symm

end BringUp

/-- The result is true only if every adapter is connected and every subscription was accepted, and false when a call on
an adapter reports failure. -/
structure ReportsFailures (settings : Settings) (conduct : Nat → Conduct) (registry : List String)
    (sys : TradingSystem T D) : Prop where
  onlyIf : (sys.initializeSystem settings conduct registry).2 = true →
    (∀ a ∈ (sys.initializeSystem settings conduct registry).1.2.adapters, a.2.connected = true) ∧
      ∀ c ∈ sys.calls settings conduct registry, c.subscribed = true
  onFailure : (∃ c ∈ sys.calls settings conduct registry, c.connected = false ∨ c.subscribed = false) →
    (sys.initializeSystem settings conduct registry).2 = false

/-- Every adapter is connected or its connect succeeds, and no subscription throws. -/
def AllSucceed (settings : Settings) (conduct : Nat → Conduct) (sys : TradingSystem T D) : Prop :=
  ∀ i a, (sys.withAdapters settings).adapters[i]? = some a →
    (a.2.connected = true ∨ Connection.Succeeds a.1 (conduct i).attempt) ∧ (conduct i).subscribeThrows = false

theorem mem_bringUps {b : BringUp D} : b ∈ sys.bringUps settings conduct ↔
    ∃ i a, sys.adapters[i]? = some a ∧ b = bringUp settings.symbols (conduct i) a := by
  rw [bringUps, List.mem_iff_getElem?]
  simp only [List.getElem?_mapIdx, Option.map_eq_some_iff, eq_comm (a := b)]

theorem allSucceed_iff : sys.AllSucceed settings conduct ↔
    ∀ b ∈ (sys.withAdapters settings).bringUps settings conduct, b.connected = true ∧ b.subscribed = true := by
  have hone : ∀ i (a : Exchange × Adapter D), (bringUp settings.symbols (conduct i) a).connected = true ∧
      (bringUp settings.symbols (conduct i) a).subscribed = true ↔
        (a.2.connected = true ∨ Connection.Succeeds a.1 (conduct i).attempt) ∧
          (conduct i).subscribeThrows = false := by
    intro i a
    obtain ⟨-, hsub, hiff⟩ := bringUp_reports settings.symbols (conduct i) a
    rw [hsub, Bool.and_eq_true, ← and_assoc, and_self, hiff, Bool.not_eq_true']
  constructor
  · intro h b hb
    obtain ⟨i, a, ha, rfl⟩ := mem_bringUps.1 hb
    exact (hone i a).2 (h i a ha)
  · intro h i a ha
    exact (hone i a).1 (h _ (mem_bringUps.2 ⟨i, a, ha, rfl⟩))

/-- **Failures of adapters** are reported exactly when `initialize` meets a clash, or there are none. -/
theorem initialize_reports_iff (settings : Settings) (conduct : Nat → Conduct) (registry : List String)
    (sys : TradingSystem T D) :
    sys.ReportsFailures settings conduct registry ↔ Clash settings registry ∨ sys.AllSucceed settings conduct := by
  by_cases hclash : Clash settings registry
  · obtain ⟨hfalse, hnone, -⟩ := initializeSystem_of_clash hclash conduct sys
    refine iff_of_true ⟨fun htrue => ?_, fun _ => hfalse⟩ (.inl hclash)
    rw [hfalse] at htrue
    cases htrue
  · obtain ⟨heq, hcalls⟩ := initializeSystem_of_not_clash hclash conduct sys
    rw [or_iff_right hclash, allSucceed_iff]
    constructor
    · rintro ⟨-, hfail⟩ b hb
      rw [heq, hcalls] at hfail
      have hnot : ¬ (b.connected = false ∨ b.subscribed = false) := fun hf => absurd (hfail ⟨b, hb, hf⟩) (by simp)
      simpa using hnot
    · intro h
      refine ⟨fun _ => ?_, ?_⟩
      · rw [heq, hcalls]
        refine ⟨fun a ha => ?_, fun b hb => (h b hb).2⟩
        obtain ⟨b, hb, rfl⟩ := List.mem_map.1 ha
        obtain ⟨i, a, -, rfl⟩ := mem_bringUps.1 hb
        rw [← (bringUp_reports settings.symbols (conduct i) a).1]
        exact (h _ hb).1
      · rintro ⟨b, hb, hf⟩
        rw [hcalls] at hb
        rcases hf with hf | hf
        · exact absurd (h b hb).1 (by simp [hf])
        · exact absurd (h b hb).2 (by simp [hf])

section Example

def enabled : Settings := ⟨true, ["BTC-USD"]⟩

/-- A host that does not resolve. -/
def unreachable : Nat → Conduct := fun _ => ⟨.resolveFails, false⟩

/-- No adapter is connected and no subscription accepted, and `initialize` returns true. -/
theorem failed_connect_not_reported :
    ((constructed : TradingSystem ℕ ℤ).initializeSystem enabled unreachable [""]).2 = true ∧
      ((constructed : TradingSystem ℕ ℤ).calls enabled unreachable [""]).map
        (fun b => (b.adapter.2.connected, b.connected, b.subscribed)) = [(false, false, false)] ∧
      ¬ (constructed : TradingSystem ℕ ℤ).ReportsFailures enabled unreachable [""] := by
  have htrue : ((constructed : TradingSystem ℕ ℤ).initializeSystem enabled unreachable [""]).2 = true := by decide
  have hcalls : ((constructed : TradingSystem ℕ ℤ).calls enabled unreachable [""]).map
      (fun b => (b.adapter.2.connected, b.connected, b.subscribed)) = [(false, false, false)] := by decide
  refine ⟨htrue, hcalls, fun h => ?_⟩
  have hmem : (false, false, false) ∈ ((constructed : TradingSystem ℕ ℤ).calls enabled unreachable [""]).map
      (fun b => (b.adapter.2.connected, b.connected, b.subscribed)) := hcalls ▸ List.mem_cons_self
  obtain ⟨b, hb, he⟩ := List.mem_map.1 hmem
  have hsub : b.subscribed = false := congrArg (fun r => r.2.2) he
  rw [(h.onlyIf htrue).2 b hb] at hsub
  cases hsub

end Example

end TradingSystem

end CryptoHft
