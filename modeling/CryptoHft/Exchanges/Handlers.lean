import CryptoHft.Exchanges.Access
import CryptoHft.Exchanges.KrakenChannels

/-!
# The handlers of market data

A handler reads the whole message before it calls the callback. So on level lists that are long enough where they are
read it is all or nothing: the callback gets exactly the levels of the message, or nothing happens
(`handler_allOrNothing_iff`). This fails only where a field is missing that is read without a test.
-/

namespace CryptoHft

open Outcome

/-! ## The six handlers -/

inductive Handler
  | snapshot
  | l2update

section Handlers

variable {D : Type} (conv : Conversions D)

def Exchange.handler : Exchange → Handler → Int → Json → Adapter D → Outcome (Adapter D)
  | coinbase, .snapshot => CoinbaseAdapter.handleSnapshotMessage conv
  | coinbase, .l2update => CoinbaseAdapter.handleL2updateMessage conv
  | kraken, .snapshot => KrakenAdapter.handleSnapshotMessage conv
  | kraken, .l2update => KrakenAdapter.handleL2updateMessage conv
  | binance, .snapshot => fun _ => BinanceAdapter.handleSnapshotMessage conv
  | binance, .l2update => fun _ => BinanceAdapter.handleL2updateMessage conv

/-! ## What a message carries -/

/-- An array of arrays, each with an element at `i` and the next index. -/
def IsLevelList (i : Nat) (levels : Json) : Prop :=
  ∃ elements, levels = .array elements ∧ ∀ level ∈ elements, ∃ es, level = .array es ∧ i + 1 < es.length

def LevelListAt (i : Nat) (key : String) (data : Json) : Prop :=
  ∃ levels, data.lookup key = some levels ∧ IsLevelList i levels

def OptionalLevelListAt (key : String) (data : Json) : Prop := ∀ levels, data.lookup key = some levels → IsLevelList 0 levels

/-- The level lists that the handler reads are lists of levels. -/
def HasLevelLists : Exchange → Handler → Json → Prop
  | .coinbase, .snapshot, data => LevelListAt 0 "bids" data ∧ LevelListAt 0 "asks" data
  | .coinbase, .l2update, data => LevelListAt 1 "changes" data
  | .kraken, .snapshot, data => OptionalLevelListAt "bs" data ∧ OptionalLevelListAt "as" data
  | .kraken, .l2update, data => OptionalLevelListAt "b" data ∧ OptionalLevelListAt "a" data
  | .binance, .snapshot, data => LevelListAt 0 "bids" data ∧ LevelListAt 0 "asks" data
  | .binance, .l2update, data => LevelListAt 0 "b" data ∧ LevelListAt 0 "a" data

/-- The levels at the key, in order. -/
def LevelsAre (key : String) (data : Json) (ls : List (D × D)) : Prop :=
  ∃ elements, data.lookup key = some (.array elements) ∧ List.Forall₂ (LevelIs conv 0) elements ls

def OptionalLevelsAre (key : String) (data : Json) (ls : List (D × D)) : Prop :=
  data.lookup key = none ∧ ls = [] ∨ LevelsAre conv key data ls

def NumberIs (key : String) (data : Json) (timestamp : Int) : Prop :=
  ∃ n, data.lookup key = some n ∧ conv.timestampOf n = .ok timestamp

/-- The change begins with the side. -/
def OnSide (side : String) : Json → Bool
  | .array (first :: _) => first.equalsString side
  | _ => false

/-- The levels of the changes on the sides, where all changes convert. -/
def ChangesAre (data : Json) (bids asks : List (D × D)) : Prop :=
  ∃ changes, data.lookup "changes" = some (.array changes) ∧ (∀ change ∈ changes, Converts conv 1 change) ∧
    List.Forall₂ (LevelIs conv 1) (changes.filter (OnSide "buy")) bids ∧
    List.Forall₂ (LevelIs conv 1) (changes.filter (OnSide "sell")) asks

/-- The fields of the message have the right types, its levels convert, and the event has exactly these. -/
def Carries : Exchange → Handler → Int → Json → MarketEvent D → Prop
  | .coinbase, .snapshot, now, data, ev => ∃ symbol bids asks, data.lookup "product_id" = some (.string symbol) ∧
      LevelsAre conv "bids" data bids ∧ LevelsAre conv "asks" data asks ∧ ev = .snapshot ⟨symbol, bids, asks, now⟩
  | .coinbase, .l2update, now, data, ev => ∃ symbol bids asks, data.lookup "product_id" = some (.string symbol) ∧
      ChangesAre conv data bids asks ∧ ev = .delta ⟨symbol, bids, asks, now⟩
  | .kraken, .snapshot, now, data, ev => ∃ bids asks, OptionalLevelsAre conv "bs" data bids ∧
      OptionalLevelsAre conv "as" data asks ∧ ev = .snapshot ⟨KrakenAdapter.symbol, bids, asks, now⟩
  | .kraken, .l2update, now, data, ev => ∃ bids asks, OptionalLevelsAre conv "b" data bids ∧
      OptionalLevelsAre conv "a" data asks ∧ ev = .delta ⟨KrakenAdapter.symbol, bids, asks, now⟩
  | .binance, .snapshot, _, data, ev => ∃ symbol timestamp bids asks, data.lookup "symbol" = some (.string symbol) ∧
      NumberIs conv "lastUpdateId" data timestamp ∧ LevelsAre conv "bids" data bids ∧
      LevelsAre conv "asks" data asks ∧ ev = .snapshot ⟨symbol, bids, asks, timestamp⟩
  | .binance, .l2update, _, data, ev => ∃ symbol timestamp bids asks, data.lookup "s" = some (.string symbol) ∧
      NumberIs conv "u" data timestamp ∧ LevelsAre conv "b" data bids ∧ LevelsAre conv "a" data asks ∧
      ev = .delta ⟨symbol, bids, asks, timestamp⟩

/-- The fields that the handler reads without a test are there, the second one if the first one is a string. -/
def FieldsPresent : Exchange → Handler → Json → Prop
  | .coinbase, _, data => data.contains "product_id" = true
  | .kraken, _, _ => True
  | .binance, .snapshot, data => data.contains "symbol" = true ∧
      ((∃ s, data.lookup "symbol" = some (.string s)) → data.contains "lastUpdateId" = true)
  | .binance, .l2update, data => data.contains "s" = true ∧
      ((∃ s, data.lookup "s" = some (.string s)) → data.contains "u" = true)

variable {conv} {data : Json} {key : String} {now : Int}

/-! ## What the handlers read -/

theorem readLevels_eq_ok {elements : List Json} {ls : List (D × D)} :
    readLevels conv (.array elements) = .ok ls ↔ List.Forall₂ (LevelIs conv 0) elements ls := by
  rw [readLevels, each_eq_ok]
  simp only [readLevel_eq_ok, Json.items]

theorem string_at_eq_ok {β : Type} {f : String → Outcome β} {r : β} :
    (do f (← (← data.subscriptKey key).getString)) = .ok r ↔
      ∃ s, data.lookup key = some (.string s) ∧ f s = .ok r := by
  simp only [bind_eq_ok, Json.subscriptKey_eq_ok, Json.getString_eq_ok]
  constructor
  · rintro ⟨_, hl, s, rfl, hr⟩
    exact ⟨s, hl, hr⟩
  · rintro ⟨s, hl, hr⟩
    exact ⟨_, hl, s, rfl, hr⟩

theorem number_at_eq_ok {β : Type} {f : Int → Outcome β} {r : β} :
    (do f (← conv.timestampOf (← data.subscriptKey key))) = .ok r ↔
      ∃ timestamp, NumberIs conv key data timestamp ∧ f timestamp = .ok r := by
  simp only [bind_eq_ok, Json.subscriptKey_eq_ok, NumberIs]
  constructor
  · rintro ⟨n, hl, timestamp, ht, hr⟩
    exact ⟨timestamp, ⟨n, hl, ht⟩, hr⟩
  · rintro ⟨timestamp, ⟨n, hl, ht⟩, hr⟩
    exact ⟨n, hl, timestamp, ht, hr⟩

theorem levels_at_eq_ok {β : Type} {f : List (D × D) → Outcome β} {r : β} (h : LevelListAt 0 key data) :
    (do f (← readLevels conv (← data.subscriptKey key))) = .ok r ↔
      ∃ ls, LevelsAre conv key data ls ∧ f ls = .ok r := by
  obtain ⟨_, hl, elements, rfl, -⟩ := h
  simp only [bind_eq_ok, Json.subscriptKey_eq_ok, LevelsAre, hl, Option.some.injEq, exists_eq_left', readLevels_eq_ok,
    Json.array.injEq]

theorem side_at_eq_ok {β : Type} {f : List (D × D) → Outcome β} {r : β} (h : OptionalLevelListAt key data) :
    (do f (← KrakenAdapter.readSide conv data key)) = .ok r ↔
      ∃ ls, OptionalLevelsAre conv key data ls ∧ f ls = .ok r := by
  unfold KrakenAdapter.readSide OptionalLevelsAre
  cases hl : data.lookup key with
  | none => simp [Json.contains, hl, LevelsAre]
  | some levels =>
    have hread := @levels_at_eq_ok D conv data key β f r ⟨levels, hl, h levels hl⟩
    simpa only [Json.contains, hl, Option.isSome_some, ↓reduceIte, reduceCtorEq, false_and, false_or, bind_assoc]
      using hread

theorem readChange_eq_ok {change : Json} {c : Json × (D × D)} :
    CoinbaseAdapter.readChange conv change = .ok c ↔
      (∃ elements, change = .array elements ∧ elements[0]? = some c.1) ∧ LevelIs conv 1 change c.2 := by
  simp only [CoinbaseAdapter.readChange, bind_eq_ok, readLevel_eq_ok, Json.subscriptIndex_eq_ok, pure_eq,
    Except.ok.injEq]
  constructor
  · rintro ⟨level, hlevel, side, hside, rfl⟩
    exact ⟨hside, hlevel⟩
  · rintro ⟨hside, hlevel⟩
    exact ⟨c.2, hlevel, c.1, hside, rfl⟩

theorem rightUnique_levelIs (i : Nat) : Relator.RightUnique (LevelIs conv i) := by
  intro level p q hp hq
  rw [← readLevel_eq_ok] at hp hq
  exact Except.ok.inj (hp.symm.trans hq)

/-- The levels that the loop over the changes collects for a side are those of the changes on that side. -/
theorem levels_of_changes {changes : List Json} {cs : List (Json × (D × D))}
    (h : each (CoinbaseAdapter.readChange conv) changes = .ok cs) (side : String) :
    List.Forall₂ (LevelIs conv 1) (changes.filter (OnSide side))
      ((cs.filter fun c => c.1.equalsString side).map Prod.snd) := by
  have hside : ∀ change c, CoinbaseAdapter.readChange conv change = .ok c →
      (OnSide side change = true ↔ c.1.equalsString side = true) := by
    intro change c hc
    obtain ⟨⟨elements, rfl, hfirst⟩, -⟩ := readChange_eq_ok.1 hc
    cases elements with
    | nil => cases hfirst
    | cons first rest => cases hfirst; exact Iff.rfl
  have hfilter := List.rel_filter (R := fun change c => CoinbaseAdapter.readChange conv change = .ok c)
    (p := OnSide side) (q := fun c => c.1.equalsString side) (fun {change c} hc => hside change c hc) (each_eq_ok.1 h)
  rw [List.forall₂_map_right_iff]
  exact hfilter.imp fun change c hc => (readChange_eq_ok.1 hc).2

/-- The loop over the changes, and the levels on the two sides. -/
theorem changes_at_eq_ok {β : Type} {f : List (D × D) → List (D × D) → Outcome β} {r : β}
    (h : LevelListAt 1 "changes" data) :
    (do
      let changes ← each (CoinbaseAdapter.readChange conv) (← data.subscriptKey "changes").items
      f ((changes.filter fun (c : Json × (D × D)) => c.1.equalsString "buy").map Prod.snd)
        ((changes.filter fun (c : Json × (D × D)) => c.1.equalsString "sell").map Prod.snd)) = .ok r ↔
      ∃ bids asks, ChangesAre conv data bids asks ∧ f bids asks = .ok r := by
  obtain ⟨_, hl, changes, rfl, -⟩ := h
  simp only [bind_eq_ok, Json.subscriptKey_eq_ok, hl, Option.some.injEq, exists_eq_left', Json.items]
  constructor
  · rintro ⟨cs, hcs, hr⟩
    have hconverts : ∀ change ∈ changes, Converts conv 1 change := by
      intro change hc
      exact returns_readChange.1 (returns_each.1 ⟨cs, hcs⟩ change hc)
    exact ⟨_, _, ⟨changes, hl, hconverts, levels_of_changes hcs "buy", levels_of_changes hcs "sell"⟩, hr⟩
  · rintro ⟨bids, asks, ⟨changes', hl', hconverts, hbids, hasks⟩, hr⟩
    rw [hl] at hl'
    cases hl'
    obtain ⟨cs, hcs⟩ := returns_each.2 fun change hc => returns_readChange.2 (hconverts change hc)
    rw [← (rightUnique_levelIs 1).forall₂ (levels_of_changes hcs "buy") hbids,
      ← (rightUnique_levelIs 1).forall₂ (levels_of_changes hcs "sell") hasks] at hr
    exact ⟨cs, hcs, hr⟩

theorem coinbase_readSnapshot_eq_ok (h : HasLevelLists .coinbase .snapshot data) (snapshot : OrderBookSnapshot D) :
    CoinbaseAdapter.readSnapshot conv now data = .ok snapshot ↔
      Carries conv .coinbase .snapshot now data (.snapshot snapshot) := by
  simp only [CoinbaseAdapter.readSnapshot, string_at_eq_ok, levels_at_eq_ok h.1, levels_at_eq_ok h.2, Carries, pure_eq,
    Except.ok.injEq, exists_and_left, MarketEvent.snapshot.injEq, eq_comm (a := snapshot)]

theorem coinbase_readL2update_eq_ok (h : HasLevelLists .coinbase .l2update data) (delta : OrderBookDelta D) :
    CoinbaseAdapter.readL2update conv now data = .ok delta ↔
      Carries conv .coinbase .l2update now data (.delta delta) := by
  simp only [CoinbaseAdapter.readL2update, string_at_eq_ok, Carries, exists_and_left, MarketEvent.delta.injEq,
    eq_comm (a := delta)]
  refine exists_congr fun symbol => and_congr_right fun _ => ?_
  have hchanges := @changes_at_eq_ok D conv data _ (fun bids asks => .ok ⟨symbol, bids, asks, now⟩) delta h
  simpa only [Except.ok.injEq, pure_eq] using hchanges

theorem kraken_readSnapshot_eq_ok (h : HasLevelLists .kraken .snapshot data) (snapshot : OrderBookSnapshot D) :
    KrakenAdapter.readSnapshot conv now data = .ok snapshot ↔
      Carries conv .kraken .snapshot now data (.snapshot snapshot) := by
  simp only [KrakenAdapter.readSnapshot, side_at_eq_ok h.1, side_at_eq_ok h.2, Carries, pure_eq, Except.ok.injEq,
    exists_and_left, MarketEvent.snapshot.injEq, eq_comm (a := snapshot)]

theorem kraken_readL2update_eq_ok (h : HasLevelLists .kraken .l2update data) (delta : OrderBookDelta D) :
    KrakenAdapter.readL2update conv now data = .ok delta ↔
      Carries conv .kraken .l2update now data (.delta delta) := by
  simp only [KrakenAdapter.readL2update, side_at_eq_ok h.1, side_at_eq_ok h.2, Carries, pure_eq, Except.ok.injEq,
    exists_and_left, MarketEvent.delta.injEq, eq_comm (a := delta)]

theorem binance_readSnapshot_eq_ok (h : HasLevelLists .binance .snapshot data) (snapshot : OrderBookSnapshot D) :
    BinanceAdapter.readSnapshot conv data = .ok snapshot ↔
      Carries conv .binance .snapshot now data (.snapshot snapshot) := by
  simp only [BinanceAdapter.readSnapshot, string_at_eq_ok, number_at_eq_ok, levels_at_eq_ok h.1, levels_at_eq_ok h.2,
    Carries, pure_eq, Except.ok.injEq, exists_and_left, MarketEvent.snapshot.injEq, eq_comm (a := snapshot)]

theorem binance_readL2update_eq_ok (h : HasLevelLists .binance .l2update data) (delta : OrderBookDelta D) :
    BinanceAdapter.readL2update conv data = .ok delta ↔
      Carries conv .binance .l2update now data (.delta delta) := by
  simp only [BinanceAdapter.readL2update, string_at_eq_ok, number_at_eq_ok, levels_at_eq_ok h.1, levels_at_eq_ok h.2,
    Carries, pure_eq, Except.ok.injEq, exists_and_left, MarketEvent.delta.injEq, eq_comm (a := delta)]

theorem snapshot_of_carries {ex : Exchange} {ev : MarketEvent D} (h : Carries conv ex .snapshot now data ev) :
    ∃ snapshot, ev = .snapshot snapshot := by
  cases ex with
  | coinbase => obtain ⟨_, _, _, -, -, -, he⟩ := h; exact ⟨_, he⟩
  | kraken => obtain ⟨_, _, -, -, he⟩ := h; exact ⟨_, he⟩
  | binance => obtain ⟨_, _, _, _, -, -, -, -, he⟩ := h; exact ⟨_, he⟩

theorem delta_of_carries {ex : Exchange} {ev : MarketEvent D} (h : Carries conv ex .l2update now data ev) :
    ∃ delta, ev = .delta delta := by
  cases ex with
  | coinbase => obtain ⟨_, _, _, -, -, he⟩ := h; exact ⟨_, he⟩
  | kraken => obtain ⟨_, _, -, -, he⟩ := h; exact ⟨_, he⟩
  | binance => obtain ⟨_, _, _, _, -, -, -, -, he⟩ := h; exact ⟨_, he⟩

/-! ## Where the handlers are defined -/

theorem levelsInRange_of_list {i : Nat} {levels : Json} (h : IsLevelList i levels) :
    LevelsInRange conv i levels.items := by
  obtain ⟨elements, rfl, hlong⟩ := h
  intro pre level post heq _ hshort
  have hmem : level ∈ (Json.array elements).items := by
    rw [heq]
    exact List.mem_append_right pre List.mem_cons_self
  obtain ⟨es, rfl, hlen⟩ := hlong level hmem
  obtain ⟨_, he, hend⟩ := hshort
  cases he
  omega

theorem levelsAt_of_list {rest : Prop} (h : LevelListAt 0 key data) (hrest : rest) : LevelsAt conv key data rest := by
  obtain ⟨levels, hl, hlist⟩ := h
  exact ⟨levels, hl, levelsInRange_of_list hlist, fun _ => hrest⟩

theorem stringAt_iff {rest : Prop} : StringAt key data rest ↔
    data.contains key = true ∧ ((∃ s, data.lookup key = some (.string s)) → rest) := by
  rw [Json.contains_eq_true]
  constructor
  · rintro ⟨value, hl, hrest⟩
    refine ⟨⟨value, hl⟩, ?_⟩
    rintro ⟨s, hs⟩
    rw [hl] at hs
    cases hs
    exact hrest ⟨s, rfl⟩
  · rintro ⟨⟨value, hl⟩, hrest⟩
    refine ⟨value, hl, ?_⟩
    rintro ⟨s, rfl⟩
    exact hrest ⟨s, hl⟩

theorem numberAt_iff {rest : Prop} (hrest : rest) : NumberAt key data rest ↔ data.contains key = true := by
  simp only [NumberAt, hrest, implies_true, and_true, Json.contains_eq_true]

theorem defined_readSide (h : OptionalLevelListAt key data) : Defined (KrakenAdapter.readSide conv data key) := by
  unfold KrakenAdapter.readSide
  cases hl : data.lookup key with
  | none => simp [Json.contains, hl]
  | some levels =>
    simp only [Json.contains, hl, Option.isSome_some, ↓reduceIte, Json.subscriptKey_of_lookup hl, bind_ok]
    exact defined_readLevels.2 (levelsInRange_of_list (h levels hl))

theorem coinbase_readSnapshot_fields (h : HasLevelLists .coinbase .snapshot data) :
    Defined (CoinbaseAdapter.readSnapshot conv now data) ↔ FieldsPresent .coinbase .snapshot data := by
  obtain ⟨members, rfl⟩ := Json.object_of_lookup h.1.choose_spec.1
  rw [coinbase_readSnapshot_defined, SnapshotInRange, stringAt_iff]
  exact and_iff_left fun _ => levelsAt_of_list h.1 (levelsAt_of_list h.2 trivial)

theorem coinbase_readL2update_fields (h : HasLevelLists .coinbase .l2update data) :
    Defined (CoinbaseAdapter.readL2update conv now data) ↔ FieldsPresent .coinbase .l2update data := by
  obtain ⟨members, rfl⟩ := Json.object_of_lookup h.choose_spec.1
  rw [coinbase_readL2update_defined, L2updateInRange, stringAt_iff]
  obtain ⟨changes, hl, hlist⟩ := h
  exact and_iff_left fun _ => ⟨changes, hl, levelsInRange_of_list hlist⟩

theorem defined_sides {β : Type} {bidKey askKey : String} {f : List (D × D) → List (D × D) → β}
    (hb : OptionalLevelListAt bidKey data) (ha : OptionalLevelListAt askKey data) :
    Defined (do
      let bids ← KrakenAdapter.readSide conv data bidKey
      let asks ← KrakenAdapter.readSide conv data askKey
      return f bids asks) := by
  refine defined_bind.2 ⟨defined_readSide hb, fun _ _ => ?_⟩
  exact defined_bind.2 ⟨defined_readSide ha, fun _ _ => defined_ok _⟩

theorem kraken_readSnapshot_fields (h : HasLevelLists .kraken .snapshot data) :
    Defined (KrakenAdapter.readSnapshot conv now data) ↔ FieldsPresent .kraken .snapshot data :=
  iff_of_true (defined_sides h.1 h.2) trivial

theorem kraken_readL2update_fields (h : HasLevelLists .kraken .l2update data) :
    Defined (KrakenAdapter.readL2update conv now data) ↔ FieldsPresent .kraken .l2update data :=
  iff_of_true (defined_sides h.1 h.2) trivial

theorem binance_readSnapshot_fields (h : HasLevelLists .binance .snapshot data) :
    Defined (BinanceAdapter.readSnapshot conv data) ↔ FieldsPresent .binance .snapshot data := by
  obtain ⟨members, rfl⟩ := Json.object_of_lookup h.1.choose_spec.1
  rw [binance_readSnapshot_defined, SnapshotInRange, stringAt_iff,
    numberAt_iff (levelsAt_of_list h.1 (levelsAt_of_list h.2 trivial))]
  rfl

theorem binance_readL2update_fields (h : HasLevelLists .binance .l2update data) :
    Defined (BinanceAdapter.readL2update conv data) ↔ FieldsPresent .binance .l2update data := by
  obtain ⟨members, rfl⟩ := Json.object_of_lookup h.1.choose_spec.1
  rw [binance_readL2update_defined, L2updateInRange, stringAt_iff,
    numberAt_iff (levelsAt_of_list h.1 (levelsAt_of_list h.2 trivial))]
  rfl

end Handlers

/-! ## All or nothing -/

section AllOrNothing

open Connection (Listening)

variable {T D : Type} [LinearOrder D] [Zero D]

/-- A handler runs, and its calls run the callbacks of the engine. -/
def deliver (uninit : MarketUpdate D) (thread : T) (handler : Adapter D → Outcome (Adapter D))
    (sys : MarketDataEngine T D × Adapter D) : Outcome (MarketDataEngine T D × Adapter D) := do
  let s ← handler { sys.2 with calls := [] }
  return (s.calls.foldl (MarketDataEngine.callback uninit thread) sys.1, s)

/-- One call with an event that the message carries, or no call and no change. -/
def AllOrNothing (uninit : MarketUpdate D) (thread : T) (carried : MarketEvent D → Prop)
    (sys : MarketDataEngine T D × Adapter D) (result : Outcome (MarketDataEngine T D × Adapter D)) : Prop :=
  (∃ ev, carried ev ∧
    result = .ok (MarketDataEngine.callback uninit thread sys.1 ev, { sys.2 with calls := [ev] })) ∨
  (∀ ev, ¬ carried ev) ∧ result = .ok (sys.1, { sys.2 with calls := [] })

variable {uninit : MarketUpdate D} {thread : T} {sys : MarketDataEngine T D × Adapter D}

omit [LinearOrder D] [Zero D] in
theorem emit_eq {s : Adapter D} (h : Listening s) (ev : MarketEvent D) :
    s.emit (some ev) = { s with calls := s.calls ++ [ev] } := by
  cases ev with
  | snapshot snapshot => exact if_pos h.1
  | delta delta => exact if_pos h.2

/-- A handler whose read returns what the message carries is all or nothing where the read is defined. -/
theorem allOrNothing_iff {α : Type} {event : α → MarketEvent D} {read : Outcome α} {carried : MarketEvent D → Prop}
    (hl : Listening sys.2) (hread : ∀ a, read = .ok a ↔ carried (event a))
    (hevent : ∀ ev, carried ev → ∃ a, ev = event a) :
    AllOrNothing uninit thread carried sys
        (deliver uninit thread (Adapter.handle read fun a s => s.emit (some (event a))) sys) ↔ Defined read := by
  have hcarried : ∀ ev, carried ev → ∃ a, read = .ok a := by
    intro ev hev
    obtain ⟨a, rfl⟩ := hevent ev hev
    exact ⟨a, (hread a).2 hev⟩
  rcases read with (_ | _) | a
  · refine iff_of_true (.inr ⟨fun ev hev => ?_, rfl⟩) defined_exception
    obtain ⟨a, ha⟩ := hcarried ev hev
    cases ha
  · refine iff_of_false ?_ not_defined_undefined
    rintro (⟨ev, -, he⟩ | ⟨-, he⟩) <;> cases he
  · refine iff_of_true (.inl ⟨event a, (hread a).1 rfl, ?_⟩) (defined_ok a)
    have hemit : ({ sys.2 with calls := [] } : Adapter D).emit (some (event a)) = { sys.2 with calls := [event a] } :=
      emit_eq (s := { sys.2 with calls := [] }) hl (event a)
    simp only [deliver, Adapter.handle, bind_ok, pure_eq, attempt_ok, hemit]
    rfl

/-- **All or nothing.** On a message whose level lists are long enough, a handler is all or nothing if and only if the
fields that it reads without a test are there. -/
theorem handler_allOrNothing_iff {conv : Conversions D} {ex : Exchange} {handler : Handler} {data : Json}
    (hl : Listening sys.2) (hlists : HasLevelLists ex handler data) (now : Int) :
    AllOrNothing uninit thread (Carries conv ex handler now data) sys
        (deliver uninit thread (ex.handler conv handler now data) sys) ↔ FieldsPresent ex handler data := by
  cases handler with
  | snapshot =>
    have hevent : ∀ ev, Carries conv ex .snapshot now data ev → ∃ snapshot, ev = .snapshot snapshot :=
      fun _ => snapshot_of_carries
    cases ex with
    | coinbase =>
      exact (allOrNothing_iff hl (coinbase_readSnapshot_eq_ok hlists) hevent).trans (coinbase_readSnapshot_fields hlists)
    | kraken =>
      exact (allOrNothing_iff hl (kraken_readSnapshot_eq_ok hlists) hevent).trans (kraken_readSnapshot_fields hlists)
    | binance =>
      exact (allOrNothing_iff hl (binance_readSnapshot_eq_ok hlists) hevent).trans (binance_readSnapshot_fields hlists)
  | l2update =>
    have hevent : ∀ ev, Carries conv ex .l2update now data ev → ∃ delta, ev = .delta delta :=
      fun _ => delta_of_carries
    cases ex with
    | coinbase =>
      exact (allOrNothing_iff hl (coinbase_readL2update_eq_ok hlists) hevent).trans (coinbase_readL2update_fields hlists)
    | kraken =>
      exact (allOrNothing_iff hl (kraken_readL2update_eq_ok hlists) hevent).trans (kraken_readL2update_fields hlists)
    | binance =>
      exact (allOrNothing_iff hl (binance_readL2update_eq_ok hlists) hevent).trans (binance_readL2update_fields hlists)

section Example

def listeningCoinbase : MarketDataEngine ℕ ℤ × Adapter ℤ :=
  (MarketDataEngine.constructed.initializeEngine ["BTC-USD"],
    (CoinbaseAdapter.connect .user (.opens (some "jwt"))
      Adapter.constructed.registerOrderBookCallback.registerOrderBookDeltaCallback).1)

def change (side price size : String) : Json := .array [.string side, .string price, .string size]

/-- The last price does not convert. -/
def badUpdate : Json :=
  .object [("product_id", .string "BTC-USD"),
    ("changes", .array [change "buy" "100" "1", change "hold" "101" "1", change "sell" "x" "1"])]

theorem badUpdate_allOrNothing :
    AllOrNothing KrakenAdapter.noUpdate 0 (Carries KrakenAdapter.prices .coinbase .l2update 0 badUpdate)
      listeningCoinbase
      (deliver KrakenAdapter.noUpdate 0 (Exchange.coinbase.handler KrakenAdapter.prices .l2update 0 badUpdate)
        listeningCoinbase) := by
  have hlists : HasLevelLists .coinbase .l2update badUpdate := by
    refine ⟨_, rfl, _, rfl, fun level hl => ?_⟩
    simp only [List.mem_cons, List.not_mem_nil, or_false] at hl
    rcases hl with rfl | rfl | rfl <;> exact ⟨_, rfl, by decide⟩
  exact (handler_allOrNothing_iff ⟨rfl, rfl⟩ hlists 0).2 rfl

/-- Without its product, a snapshot is neither handed on nor dropped. -/
theorem missing_product_not_allOrNothing :
    ¬ AllOrNothing KrakenAdapter.noUpdate 0
      (Carries KrakenAdapter.prices .coinbase .snapshot 0 (.object [("bids", .array []), ("asks", .array [])]))
      listeningCoinbase
      (deliver KrakenAdapter.noUpdate 0
        (Exchange.coinbase.handler KrakenAdapter.prices .snapshot 0
          (.object [("bids", .array []), ("asks", .array [])])) listeningCoinbase) := by
  have hundefined : deliver KrakenAdapter.noUpdate 0
      (Exchange.coinbase.handler KrakenAdapter.prices .snapshot 0
        (.object [("bids", .array []), ("asks", .array [])])) listeningCoinbase = .error .undefined := rfl
  rw [hundefined]
  rintro (⟨ev, -, he⟩ | ⟨-, he⟩) <;> cases he

end Example

end AllOrNothing

end CryptoHft
