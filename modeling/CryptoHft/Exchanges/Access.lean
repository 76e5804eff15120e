import CryptoHft.Exchanges.Exchange

/-!
# The accesses of the handlers

The handlers read a document through the `const` subscripts, which are undefined for a key that is not there or an index
out of range. The fields are read one after another, up to the first value that throws, so a condition on a field asks
something of the next one only if it converts (`StringAt`, `NumberAt`, `LevelsAt`, `OptionalLevelsAt`).

`onMessage_defined_iff` says of every document when all these accesses are in range.
-/

namespace CryptoHft

open Outcome

variable {D : Type} (conv : Conversions D)

/-! ## Conditions on the fields -/

/-- The key is there, and if its value is a string, so goes the rest. -/
def StringAt (key : String) (data : Json) (rest : Prop) : Prop :=
  ∃ value, data.lookup key = some value ∧ ((∃ s, value = .string s) → rest)

def IsNumber : Json → Prop
  | .number_unsigned _ | .number_integer _ | .number_float _ => True
  | _ => False

/-- The key is there, and if its value is a number, so goes the rest. -/
def NumberAt (key : String) (data : Json) (rest : Prop) : Prop :=
  ∃ value, data.lookup key = some value ∧ (IsNumber value → rest)

/-- The levels are in range, and if they all convert, so goes the rest. -/
def LevelsThen (levels : Json) (rest : Prop) : Prop :=
  LevelsInRange conv 0 levels.items ∧ ((∀ level ∈ levels.items, Converts conv 0 level) → rest)

def LevelsAt (key : String) (data : Json) (rest : Prop) : Prop :=
  ∃ levels, data.lookup key = some levels ∧ LevelsThen conv levels rest

/-- The same for a key that the handler tests first. -/
def OptionalLevelsAt (key : String) (data : Json) (rest : Prop) : Prop :=
  match data.lookup key with
  | some levels => LevelsThen conv levels rest
  | none => rest

/-! ## What the six handlers access -/

/-- Every access of the snapshot handler is in range. -/
def SnapshotInRange : Exchange → Json → Prop
  | .coinbase, data => StringAt "product_id" data (LevelsAt conv "bids" data (LevelsAt conv "asks" data True))
  | .kraken, data => OptionalLevelsAt conv "bs" data (OptionalLevelsAt conv "as" data True)
  | .binance, data =>
    StringAt "symbol" data (NumberAt "lastUpdateId" data (LevelsAt conv "bids" data (LevelsAt conv "asks" data True)))

/-- Every access of the update handler is in range. -/
def L2updateInRange : Exchange → Json → Prop
  | .coinbase, data =>
    StringAt "product_id" data (∃ changes, data.lookup "changes" = some changes ∧ LevelsInRange conv 1 changes.items)
  | .kraken, data => OptionalLevelsAt conv "b" data (OptionalLevelsAt conv "a" data True)
  | .binance, data =>
    StringAt "s" data (NumberAt "u" data (LevelsAt conv "b" data (LevelsAt conv "a" data True)))

/-- The part of a document that `on_message` hands to the snapshot handler. -/
def SnapshotOf : Exchange → Json → Json → Prop
  | .coinbase, doc, data => data = doc ∧ doc.lookup "type" = some (.string "snapshot")
  | .kraken, doc, data => (∃ id rest, doc = .array (id :: data :: rest)) ∧
      (data.contains "bs" = true ∨ data.contains "as" = true)
  | .binance, doc, data => data = doc ∧ doc.contains "result" = false ∧ doc.contains "id" = false ∧
      doc.lookup "e" ≠ some (.string "depthUpdate") ∧ doc.contains "lastUpdateId" = true

/-- The part of a document that `on_message` hands to the update handler. -/
def L2updateOf : Exchange → Json → Json → Prop
  | .coinbase, doc, data => data = doc ∧ doc.lookup "type" = some (.string "l2update")
  | .kraken, doc, data => (∃ id rest, doc = .array (id :: data :: rest)) ∧
      data.contains "bs" = false ∧ data.contains "as" = false ∧
        (data.contains "b" = true ∨ data.contains "a" = true)
  | .binance, doc, data => data = doc ∧ doc.contains "result" = false ∧ doc.contains "id" = false ∧
      doc.lookup "e" = some (.string "depthUpdate")

/-! ## Definedness of the reads -/

variable {conv}

theorem defined_string_at {β : Type} {key : String} {members : List (String × Json)} {f : String → Outcome β}
    {rest : Prop} (hf : ∀ s, Defined (f s) ↔ rest) :
    Defined (do f (← (← (Json.object members).subscriptKey key).getString)) ↔
      StringAt key (.object members) rest := by
  simp only [Json.defined_subscriptKey_bind, Json.defined_getString_bind, hf, StringAt, forall_exists_index]

theorem returns_timestampOf {value : Json} : (∃ n, conv.timestampOf value = .ok n) ↔ IsNumber value := by
  cases value <;> simp [Conversions.timestampOf, Json.getUint64, IsNumber]

theorem defined_number_at {β : Type} {key : String} {members : List (String × Json)} {f : Int → Outcome β}
    {rest : Prop} (hf : ∀ n, Defined (f n) ↔ rest) :
    Defined (do f (← conv.timestampOf (← (Json.object members).subscriptKey key))) ↔
      NumberAt key (.object members) rest := by
  have hnumber : ∀ value, (∃ n, conv.timestampOf value = .ok n) ↔ IsNumber value := fun _ => returns_timestampOf
  rw [Json.defined_subscriptKey_bind]
  simp only [defined_bind, defined_timestampOf, true_and, hf, NumberAt, ← hnumber, forall_exists_index]

theorem defined_levels_then {β : Type} {levels : Json} {f : List (D × D) → Outcome β} {rest : Prop}
    (hf : ∀ ls, Defined (f ls) ↔ rest) :
    Defined (do f (← readLevels conv levels)) ↔ LevelsThen conv levels rest := by
  simp only [defined_bind, defined_readLevels, hf, LevelsThen, ← returns_readLevels, forall_exists_index]

theorem defined_levels_at {β : Type} {key : String} {members : List (String × Json)} {f : List (D × D) → Outcome β}
    {rest : Prop} (hf : ∀ ls, Defined (f ls) ↔ rest) :
    Defined (do f (← readLevels conv (← (Json.object members).subscriptKey key))) ↔
      LevelsAt conv key (.object members) rest := by
  simp only [Json.defined_subscriptKey_bind, defined_levels_then hf, LevelsAt]

theorem defined_optional_levels_at {β : Type} {key : String} {members : List (String × Json)}
    {f : List (D × D) → Outcome β} {rest : Prop} (hf : ∀ ls, Defined (f ls) ↔ rest) :
    Defined (do f (← KrakenAdapter.readSide conv (.object members) key)) ↔
      OptionalLevelsAt conv key (.object members) rest := by
  unfold KrakenAdapter.readSide OptionalLevelsAt
  cases h : (Json.object members).lookup key with
  | none => simp [Json.contains, h, hf]
  | some levels => simp [Json.contains, h, Json.subscriptKey_of_lookup h, defined_levels_then hf]

/-- A change whose price and size convert has a side. -/
theorem side_of_converts {change : Json} (h : Converts conv 1 change) : ∃ side, change.subscriptIndex 0 = .ok side := by
  obtain ⟨es, rfl, ⟨s, x, hs, -⟩, -⟩ := h
  cases es with
  | nil => cases hs
  | cons side es => exact ⟨side, rfl⟩

theorem returns_readChange {change : Json} :
    (∃ c, CoinbaseAdapter.readChange conv change = .ok c) ↔ Converts conv 1 change := by
  rw [← returns_readLevel]
  unfold CoinbaseAdapter.readChange
  cases hl : readLevel conv 1 change with
  | error e => simp
  | ok level =>
    obtain ⟨side, hs⟩ := side_of_converts (returns_readLevel.1 ⟨level, hl⟩)
    simp [hs]

theorem defined_readChange {change : Json} :
    Defined (CoinbaseAdapter.readChange conv change) ↔ ¬ Short conv 1 change := by
  rw [← defined_readLevel]
  unfold CoinbaseAdapter.readChange
  cases hl : readLevel conv 1 change with
  | error e => rw [bind_error, defined_error, defined_error]
  | ok level =>
    obtain ⟨side, hs⟩ := side_of_converts (returns_readLevel.1 ⟨level, hl⟩)
    simp [hs]

theorem defined_changes {β : Type} {changes : Json} {f : List (Json × (D × D)) → Outcome β}
    (hf : ∀ cs, Defined (f cs)) :
    Defined (do f (← each (CoinbaseAdapter.readChange conv) changes.items)) ↔ LevelsInRange conv 1 changes.items := by
  simp only [defined_bind, hf, implies_true, and_true, defined_each, returns_readChange, defined_readChange,
    LevelsInRange]

/-! ## The six handlers -/

theorem coinbase_readSnapshot_defined (now : Int) (members : List (String × Json)) :
    Defined (CoinbaseAdapter.readSnapshot conv now (.object members)) ↔
      SnapshotInRange conv .coinbase (.object members) :=
  defined_string_at fun _ => defined_levels_at fun _ => defined_levels_at fun _ => by simp

theorem coinbase_readL2update_defined (now : Int) (members : List (String × Json)) :
    Defined (CoinbaseAdapter.readL2update conv now (.object members)) ↔
      L2updateInRange conv .coinbase (.object members) :=
  defined_string_at fun _ => Json.defined_subscriptKey_bind.trans <| by
    simp only [defined_changes fun _ => defined_ok _, pure_eq]

theorem kraken_readSnapshot_defined (now : Int) (members : List (String × Json)) :
    Defined (KrakenAdapter.readSnapshot conv now (.object members)) ↔
      SnapshotInRange conv .kraken (.object members) :=
  defined_optional_levels_at fun _ => defined_optional_levels_at fun _ => by simp

theorem kraken_readL2update_defined (now : Int) (members : List (String × Json)) :
    Defined (KrakenAdapter.readL2update conv now (.object members)) ↔
      L2updateInRange conv .kraken (.object members) :=
  defined_optional_levels_at fun _ => defined_optional_levels_at fun _ => by simp

theorem binance_readSnapshot_defined (members : List (String × Json)) :
    Defined (BinanceAdapter.readSnapshot conv (.object members)) ↔
      SnapshotInRange conv .binance (.object members) :=
  defined_string_at fun _ => defined_number_at fun _ => defined_levels_at fun _ => defined_levels_at fun _ => by simp

theorem binance_readL2update_defined (members : List (String × Json)) :
    Defined (BinanceAdapter.readL2update conv (.object members)) ↔
      L2updateInRange conv .binance (.object members) :=
  defined_string_at fun _ => defined_number_at fun _ => defined_levels_at fun _ => defined_levels_at fun _ => by simp

/-! ## on_message -/

theorem defined_effect {v : Verdict D} {s : Adapter D} : Defined (v.effect s) ↔ v ≠ .undefined := by
  cases v <;> simp [Verdict.effect]

theorem ofRead_stops {α : Type} {event : α → MarketEvent D} {read : Outcome α} :
    Verdict.ofRead event .stops read ≠ .undefined ↔ Defined read := by
  rcases read with (_ | _) | a <;> simp [Verdict.ofRead]

theorem ofRead_readsOn {α : Type} {event : α → MarketEvent D} {read : Outcome α} :
    Verdict.ofRead event .readsOn read ≠ .undefined ↔ Defined read := by
  rcases read with (_ | _) | a <;> simp [Verdict.ofRead]

/-- The accesses of the handlers are in range for every part of the document that they get. -/
def AccessesInRange (conv : Conversions D) (ex : Exchange) (doc : Json) : Prop :=
  (∀ data, SnapshotOf ex doc data → SnapshotInRange conv ex data) ∧
    ∀ data, L2updateOf ex doc data → L2updateInRange conv ex data

theorem errorVerdict_ne_undefined (doc : Json) : (CoinbaseAdapter.errorVerdict doc : Verdict D) ≠ .undefined := by
  unfold CoinbaseAdapter.errorVerdict
  split
  · nofun
  · split <;> nofun

theorem authenticateVerdict_ne_undefined (doc : Json) :
    (CoinbaseAdapter.authenticateVerdict doc : Verdict D) ≠ .undefined := by
  unfold CoinbaseAdapter.authenticateVerdict
  split <;> nofun

theorem coinbase_defined (now : Int) {doc : Json} :
    CoinbaseAdapter.verdict conv now (some doc) ≠ .undefined ↔ AccessesInRange conv .coinbase doc := by
  simp only [AccessesInRange, SnapshotOf, L2updateOf, CoinbaseAdapter.verdict, and_imp, forall_eq]
  cases hl : doc.lookup "type" with
  | none => simp
  | some v =>
    cases v with
    | string type =>
      obtain ⟨members, rfl⟩ := Json.object_of_lookup hl
      simp only [Option.some.injEq, Json.string.injEq, CoinbaseAdapter.typeVerdict]
      by_cases hs : type = "snapshot"
      · subst hs
        simp [ofRead_stops, coinbase_readSnapshot_defined]
      by_cases hu : type = "l2update"
      · subst hu
        simp [ofRead_stops, coinbase_readL2update_defined]
      · refine iff_of_true ?_ ⟨fun h => absurd h hs, fun h => absurd h hu⟩
        rw [if_neg hs, if_neg hu]
        split
        · exact errorVerdict_ne_undefined _
        · split
          · exact authenticateVerdict_ne_undefined _
          · split <;> simp
    | _ => simp

theorem object_of_contains {key key' : String} {data : Json}
    (h : data.contains key = true ∨ data.contains key' = true) : ∃ members, data = .object members := by
  rcases h with h | h
  · exact Json.object_of_lookup (Json.contains_eq_true.1 h).choose_spec
  · exact Json.object_of_lookup (Json.contains_eq_true.1 h).choose_spec

theorem kraken_defined (now : Int) {doc : Json} :
    KrakenAdapter.verdict conv now (some doc) ≠ .undefined ↔ AccessesInRange conv .kraken doc := by
  by_cases hb : ∃ id data rest, doc = .array (id :: data :: rest)
  · obtain ⟨id, data, rest, rfl⟩ := hb
    have hroute : ∀ data', (∃ id' rest', Json.array (id :: data :: rest) = .array (id' :: data' :: rest')) ↔
        data' = data := by
      intro data'
      constructor
      · rintro ⟨_, _, he⟩
        cases he
        rfl
      · rintro rfl
        exact ⟨_, _, rfl⟩
    simp only [AccessesInRange, SnapshotOf, L2updateOf, hroute, and_imp, forall_eq]
    have hv : KrakenAdapter.verdict conv now (some (.array (id :: data :: rest))) =
        KrakenAdapter.bookVerdict conv now (.array (id :: data :: rest)) := rfl
    rw [hv, KrakenAdapter.bookVerdict]
    by_cases hs : data.contains "bs" = true ∨ data.contains "as" = true
    · obtain ⟨members, rfl⟩ := object_of_contains hs
      rw [if_pos (by simpa using hs), ofRead_readsOn, kraken_readSnapshot_defined]
      refine ⟨fun h => ⟨fun _ => h, fun hbs has => ?_⟩, fun h => h.1 hs⟩
      simp [hbs, has] at hs
    rw [if_neg (by simpa using hs)]
    by_cases hu : data.contains "b" = true ∨ data.contains "a" = true
    · obtain ⟨members, rfl⟩ := object_of_contains hu
      rw [if_pos (by simpa using hu), ofRead_readsOn, kraken_readL2update_defined]
      simp only [not_or, Bool.not_eq_true] at hs
      exact ⟨fun h => ⟨fun h' => absurd h' (by simp [hs]), fun _ _ _ => h⟩, fun h => h.2 hs.1 hs.2 hu⟩
    · rw [if_neg (by simpa using hu)]
      exact iff_of_true (by simp) ⟨fun h => absurd h hs, fun _ _ h => absurd h hu⟩
  · have hnone : ∀ data, ¬ ∃ id rest, doc = .array (id :: data :: rest) := by
      rintro data ⟨id, rest, he⟩
      exact hb ⟨id, data, rest, he⟩
    refine iff_of_true ?_ ⟨fun data h => absurd h.1 (hnone data), fun data h => absurd h.1 (hnone data)⟩
    unfold KrakenAdapter.verdict
    split
    · simp
    · next he =>
      cases he
      split
      · split <;> simp
      · simp
      · unfold KrakenAdapter.bookVerdict
        split
        · exact absurd ⟨_, _, _, rfl⟩ hb
        · simp

theorem binance_defined (now : Int) {doc : Json} :
    BinanceAdapter.verdict conv now (some doc) ≠ .undefined ↔ AccessesInRange conv .binance doc := by
  have hupdate : (doc.lookup "e").any (Json.equalsString "depthUpdate") = true ↔
      doc.lookup "e" = some (.string "depthUpdate") := by
    cases doc.lookup "e" with
    | none => simp
    | some v => cases v <;> simp [Json.equalsString]
  simp only [AccessesInRange, SnapshotOf, L2updateOf, and_imp, forall_eq, BinanceAdapter.verdict]
  by_cases hr : doc.contains "result" = true ∨ doc.contains "id" = true
  · rw [if_pos (by simpa using hr)]
    refine iff_of_true (by simp) ⟨fun h₁ h₂ => ?_, fun h₁ h₂ => ?_⟩ <;> simp [h₁, h₂] at hr
  rw [if_neg (by simpa using hr)]
  simp only [not_or, Bool.not_eq_true] at hr
  by_cases hu : doc.lookup "e" = some (.string "depthUpdate")
  · obtain ⟨members, rfl⟩ := Json.object_of_lookup hu
    rw [if_pos (hupdate.2 hu), ofRead_readsOn, binance_readL2update_defined]
    exact ⟨fun h => ⟨fun _ _ h' => absurd hu h', fun _ _ _ => h⟩, fun h => h.2 hr.1 hr.2 hu⟩
  rw [if_neg (mt hupdate.1 hu)]
  by_cases hl : doc.contains "lastUpdateId" = true
  · obtain ⟨members, rfl⟩ := object_of_contains (.inl hl : _ ∨ doc.contains "lastUpdateId" = true)
    rw [if_pos hl, ofRead_readsOn, binance_readSnapshot_defined]
    exact ⟨fun h => ⟨fun _ _ _ _ => h, fun _ _ h' => absurd h' hu⟩, fun h => h.1 hr.1 hr.2 hu hl⟩
  · rw [if_neg hl]
    exact iff_of_true (by simp) ⟨fun _ _ _ h => absurd h hl, fun _ _ h => absurd h hu⟩

/-- **Accesses in range.** The handling of a message is undefined exactly when a handler gets a document with an access
out of range. -/
theorem onMessage_defined_iff (ex : Exchange) (now : Int) (doc : Json) (s : Adapter D) :
    Defined (ex.onMessage conv (.message now (some doc)) s) ↔ AccessesInRange conv ex doc := by
  rw [Exchange.onMessage_eq, defined_effect]
  cases ex with
  | coinbase => exact coinbase_defined now
  | kraken => exact kraken_defined now
  | binance => exact binance_defined now

/-- A Coinbase snapshot that names no product. -/
theorem snapshot_without_product_undefined :
    ¬ Defined (Exchange.coinbase.onMessage (default : Conversions ℤ)
      (.message 0 (some (.object [("type", .string "snapshot"), ("bids", .array []), ("asks", .array [])])))
      (Exchange.coinbase.connect .user (.opens (some "jwt")) Adapter.constructed).1) :=
  not_not_intro rfl

end CryptoHft
