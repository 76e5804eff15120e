import CryptoHft.Exchanges.Deliveries

/-!
# What the documents hold

The content of a document, taken from its fields and apart from the adapters (`holds`): the events of all its payloads,
under the symbols that the document names. A document of Coinbase or Binance is one payload. A document of Kraken is an
array with the payloads of one pair between the channel and the pair, and may have several of them.

* `event_eq_holds`: an adapter hands on what a document holds, unless it is a document of Kraken that holds something after
  its first payload, or about another pair than the one of the adapter (`Readable`).
-/

namespace CryptoHft

open Outcome

variable {D : Type} (conv : Conversions D)

/-! ## Levels -/

def elementAt (i : Nat) : Json → Option Json
  | .array elements => elements[i]?
  | _ => none

def numberOf (i : Nat) (level : Json) : Option D := do conv.stod (← (← elementAt i level).asString)

/-- Price and size of a level. -/
def levelOf (i : Nat) (level : Json) : Option (D × D) := do return (← numberOf conv i level, ← numberOf conv (i + 1) level)

/-- The levels of a list, if all are levels. -/
def levelsOf (levels : Json) : Option (List (D × D)) := levels.items.mapM (levelOf conv 0)

/-- The side and the level of a change. -/
def changeOf (change : Json) : Option (Json × (D × D)) := do
  let level ← levelOf conv 1 change
  return (← elementAt 0 change, level)

/-- The levels of the changes on a side. -/
def changesOn (side : String) (changes : List (Json × (D × D))) : List (D × D) :=
  (changes.filter fun c => c.1.equalsString side).map Prod.snd

def timestampOf (number : Json) : Option Int := (conv.timestampOf number).toOption

/-! ## Payloads -/

def coinbaseSnapshot (now : Int) (data : Json) : Option (OrderBookSnapshot D) := do
  let symbol ← (← data.lookup "product_id").asString
  let bids ← levelsOf conv (← data.lookup "bids")
  let asks ← levelsOf conv (← data.lookup "asks")
  return { symbol, timestamp := now, bids, asks }

def coinbaseUpdate (now : Int) (data : Json) : Option (OrderBookDelta D) := do
  let symbol ← (← data.lookup "product_id").asString
  let changes ← (← data.lookup "changes").items.mapM (changeOf conv)
  return { symbol, timestamp := now, bidUpdates := changesOn "buy" changes, askUpdates := changesOn "sell" changes }

def coinbaseHolds (now : Int) (data : Json) : Option (MarketEvent D) :=
  match data.lookup "type" with
  | some (.string type) =>
    if type = "snapshot" then (coinbaseSnapshot conv now data).map .snapshot
    else if type = "l2update" then (coinbaseUpdate conv now data).map .delta
    else none
  | _ => none

/-- The levels under a key that may be missing. -/
def sideOf (payload : Json) (key : String) : Option (List (D × D)) :=
  match payload.lookup key with
  | some levels => levelsOf conv levels
  | none => some []

def krakenSnapshot (now : Int) (pair : String) (payload : Json) : Option (OrderBookSnapshot D) := do
  let bids ← sideOf conv payload "bs"
  let asks ← sideOf conv payload "as"
  return { symbol := pair, timestamp := now, bids, asks }

def krakenUpdate (now : Int) (pair : String) (payload : Json) : Option (OrderBookDelta D) := do
  let bidUpdates ← sideOf conv payload "b"
  let askUpdates ← sideOf conv payload "a"
  return { symbol := pair, timestamp := now, bidUpdates, askUpdates }

/-- What a payload holds about a pair: a snapshot has a side under `bs` or `as`, an update under `b` or `a`. -/
def krakenHolds (now : Int) (pair : String) (payload : Json) : Option (MarketEvent D) :=
  if payload.contains "bs" || payload.contains "as" then (krakenSnapshot conv now pair payload).map .snapshot
  else if payload.contains "b" || payload.contains "a" then (krakenUpdate conv now pair payload).map .delta
  else none

def binanceSnapshot (data : Json) : Option (OrderBookSnapshot D) := do
  let symbol ← (← data.lookup "symbol").asString
  let timestamp ← timestampOf conv (← data.lookup "lastUpdateId")
  let bids ← levelsOf conv (← data.lookup "bids")
  let asks ← levelsOf conv (← data.lookup "asks")
  return { symbol, timestamp, bids, asks }

def binanceUpdate (data : Json) : Option (OrderBookDelta D) := do
  let symbol ← (← data.lookup "s").asString
  let timestamp ← timestampOf conv (← data.lookup "u")
  let bidUpdates ← levelsOf conv (← data.lookup "b")
  let askUpdates ← levelsOf conv (← data.lookup "a")
  return { symbol, timestamp, bidUpdates, askUpdates }

/-- An answer to a request holds nothing. -/
def binanceHolds (data : Json) : Option (MarketEvent D) :=
  if data.contains "result" || data.contains "id" then none
  else if (data.lookup "e").any (Json.equalsString "depthUpdate") then (binanceUpdate conv data).map .delta
  else if data.contains "lastUpdateId" then (binanceSnapshot conv data).map .snapshot
  else none

/-- What a document holds, payload by payload. -/
def Exchange.holds (now : Int) (doc : Json) : Exchange → List (MarketEvent D)
  | coinbase => (coinbaseHolds conv now doc).toList
  | kraken =>
    match doc with
    | .array (_ :: rest) =>
      match rest.getLast? with
      | some (.string pair) => rest.filterMap (krakenHolds conv now pair)
      | _ => []
    | _ => []
  | binance => (binanceHolds conv doc).toList

def HoldsSomething (payload : Json) : Prop := ∃ now pair ev, krakenHolds conv now pair payload = some ev

/-- A document of Kraken holds nothing after its first payload, and nothing about another pair than the adapter's. -/
def Exchange.Readable (doc : Json) : Exchange → Prop
  | kraken => ∀ channel payload more, doc = .array (channel :: payload :: more) →
      (more.getLast? = some (.string KrakenAdapter.symbol) ∨ ¬ HoldsSomething conv payload) ∧
        ∀ payload' ∈ more, ¬ HoldsSomething conv payload'
  | _ => True

variable {conv} {now : Int} {doc data : Json}

/-! ## What the adapters read -/

theorem event_ofRead_stops {α : Type} (event : α → MarketEvent D) (read : Outcome α) :
    (Verdict.ofRead event .stops read).event = read.toOption.map event := by
  rcases read with (_ | _) | a <;> rfl

theorem event_ofRead_readsOn {α : Type} (event : α → MarketEvent D) (read : Outcome α) :
    (Verdict.ofRead event .readsOn read).event = read.toOption.map event := by
  rcases read with (_ | _) | a <;> rfl

theorem toOption_subscriptIndex (i : Nat) (j : Json) : (j.subscriptIndex i).toOption = elementAt i j := by
  cases j with
  | array elements => cases h : elements[i]? <;> simp [Json.subscriptIndex, elementAt, h]
  | _ => rfl

theorem toOption_stodOf (s : String) : (conv.stodOf s).toOption = conv.stod s := by
  unfold Conversions.stodOf
  cases conv.stod s <;> rfl

theorem toOption_readLevel (i : Nat) (level : Json) : (readLevel conv i level).toOption = levelOf conv i level := by
  simp only [readLevel, toOption_bind, toOption_subscriptIndex, Json.toOption_getString, toOption_stodOf, pure_eq,
    toOption_ok, levelOf, numberOf, Option.bind_eq_bind, Option.bind_assoc, Option.pure_def]

theorem toOption_readLevels (levels : Json) : (readLevels conv levels).toOption = levelsOf conv levels := by
  simp only [readLevels, toOption_each, toOption_readLevel, levelsOf]

theorem toOption_readChange (change : Json) : (CoinbaseAdapter.readChange conv change).toOption = changeOf conv change := by
  simp only [CoinbaseAdapter.readChange, toOption_bind, toOption_readLevel, toOption_subscriptIndex, pure_eq,
    toOption_ok, changeOf, Option.bind_eq_bind, Option.pure_def]

theorem toOption_readSide (data : Json) (key : String) :
    (KrakenAdapter.readSide conv data key).toOption = sideOf conv data key := by
  unfold KrakenAdapter.readSide sideOf
  cases h : data.lookup key with
  | none => simp [Json.contains, h]
  | some levels => simp [Json.contains, h, Json.subscriptKey_of_lookup h, toOption_readLevels]

theorem coinbase_toOption_readSnapshot (now : Int) (data : Json) :
    (CoinbaseAdapter.readSnapshot conv now data).toOption = coinbaseSnapshot conv now data := by
  simp only [CoinbaseAdapter.readSnapshot, toOption_bind, Json.toOption_subscriptKey, Json.toOption_getString,
    toOption_readLevels, pure_eq, toOption_ok, coinbaseSnapshot, Option.bind_eq_bind, Option.pure_def]

theorem coinbase_toOption_readL2update (now : Int) (data : Json) :
    (CoinbaseAdapter.readL2update conv now data).toOption = coinbaseUpdate conv now data := by
  simp only [CoinbaseAdapter.readL2update, toOption_bind, Json.toOption_subscriptKey, Json.toOption_getString,
    toOption_each, toOption_readChange, pure_eq, toOption_ok, coinbaseUpdate, changesOn, Option.bind_eq_bind,
    Option.pure_def]

theorem kraken_toOption_readSnapshot (now : Int) (data : Json) :
    (KrakenAdapter.readSnapshot conv now data).toOption = krakenSnapshot conv now KrakenAdapter.symbol data := by
  simp only [KrakenAdapter.readSnapshot, toOption_bind, toOption_readSide, pure_eq, toOption_ok, krakenSnapshot,
    Option.bind_eq_bind, Option.pure_def]

theorem kraken_toOption_readL2update (now : Int) (data : Json) :
    (KrakenAdapter.readL2update conv now data).toOption = krakenUpdate conv now KrakenAdapter.symbol data := by
  simp only [KrakenAdapter.readL2update, toOption_bind, toOption_readSide, pure_eq, toOption_ok, krakenUpdate,
    Option.bind_eq_bind, Option.pure_def]

theorem binance_toOption_readSnapshot (data : Json) :
    (BinanceAdapter.readSnapshot conv data).toOption = binanceSnapshot conv data := by
  simp only [BinanceAdapter.readSnapshot, toOption_bind, Json.toOption_subscriptKey, Json.toOption_getString,
    toOption_readLevels, pure_eq, toOption_ok, binanceSnapshot, timestampOf, Option.bind_eq_bind, Option.pure_def]

theorem binance_toOption_readL2update (data : Json) :
    (BinanceAdapter.readL2update conv data).toOption = binanceUpdate conv data := by
  simp only [BinanceAdapter.readL2update, toOption_bind, Json.toOption_subscriptKey, Json.toOption_getString,
    toOption_readLevels, pure_eq, toOption_ok, binanceUpdate, timestampOf, Option.bind_eq_bind, Option.pure_def]

/-! ## What the adapters hand on -/

theorem coinbase_typeVerdict_event (now : Int) (data : Json) (type : String) :
    (CoinbaseAdapter.typeVerdict conv now data type).event =
      if type = "snapshot" then (coinbaseSnapshot conv now data).map .snapshot
      else if type = "l2update" then (coinbaseUpdate conv now data).map .delta
      else none := by
  have herror : (CoinbaseAdapter.errorVerdict data : Verdict D).event = none := by
    unfold CoinbaseAdapter.errorVerdict
    repeat' split
    all_goals rfl
  have hauthenticate : (CoinbaseAdapter.authenticateVerdict data : Verdict D).event = none := by
    unfold CoinbaseAdapter.authenticateVerdict
    split <;> rfl
  by_cases hs : type = "snapshot"
  · subst hs
    exact (event_ofRead_stops ..).trans (by rw [coinbase_toOption_readSnapshot]; rfl)
  by_cases hu : type = "l2update"
  · subst hu
    exact (event_ofRead_stops ..).trans (by rw [coinbase_toOption_readL2update]; rfl)
  rw [CoinbaseAdapter.typeVerdict, if_neg hs, if_neg hu, if_neg hs, if_neg hu]
  split
  · exact herror
  split
  · exact hauthenticate
  split <;> rfl

theorem coinbase_event (now : Int) (doc : Json) :
    (CoinbaseAdapter.verdict conv now (some doc)).event = coinbaseHolds conv now doc := by
  cases h : doc.lookup "type" with
  | none => simp only [CoinbaseAdapter.verdict, coinbaseHolds, h]; rfl
  | some v =>
    cases v with
    | string type =>
      simp only [CoinbaseAdapter.verdict, coinbaseHolds, h]
      exact coinbase_typeVerdict_event now doc type
    | _ => simp only [CoinbaseAdapter.verdict, coinbaseHolds, h]; rfl

/-- The first payload is read, as if it were about the one pair. -/
theorem kraken_event (now : Int) (channel payload : Json) (more : List Json) :
    (KrakenAdapter.verdict conv now (some (.array (channel :: payload :: more)))).event =
      krakenHolds conv now KrakenAdapter.symbol payload := by
  have hv : KrakenAdapter.verdict conv now (some (.array (channel :: payload :: more))) =
      KrakenAdapter.bookVerdict conv now (.array (channel :: payload :: more)) := rfl
  rw [hv, KrakenAdapter.bookVerdict, krakenHolds]
  split
  · rw [event_ofRead_readsOn, kraken_toOption_readSnapshot]
  split
  · rw [event_ofRead_readsOn, kraken_toOption_readL2update]
  · rfl

theorem kraken_event_object (now : Int) (members : List (String × Json)) :
    (KrakenAdapter.verdict conv now (some (.object members))).event = none := by
  unfold KrakenAdapter.verdict
  dsimp only
  split
  · split <;> rfl
  · rfl
  · rfl

theorem binance_event (now : Int) (doc : Json) :
    (BinanceAdapter.verdict conv now (some doc)).event = binanceHolds conv doc := by
  rw [BinanceAdapter.verdict, binanceHolds]
  split
  · rfl
  split
  · rw [event_ofRead_readsOn, binance_toOption_readL2update]
  split
  · rw [event_ofRead_readsOn, binance_toOption_readSnapshot]
  · rfl

theorem krakenHolds_of_not {pair : String} {payload : Json} (h : ¬ HoldsSomething conv payload) :
    krakenHolds conv now pair payload = none :=
  Option.eq_none_iff_forall_ne_some.2 fun ev hev => h ⟨now, pair, ev, hev⟩

/-- **An adapter hands on what a document holds**, if the document is readable. -/
theorem event_eq_holds {ex : Exchange} (h : ex.Readable conv doc) :
    (ex.verdict conv now (some doc)).event.toList = ex.holds conv now doc := by
  cases ex with
  | coinbase => exact congrArg Option.toList (coinbase_event now doc)
  | binance => exact congrArg Option.toList (binance_event now doc)
  | kraken =>
    match doc with
    | .array (channel :: payload :: more) =>
      refine (congrArg Option.toList (kraken_event now channel payload more)).trans ?_
      obtain ⟨hfirst, hmore⟩ := h channel payload more rfl
      have hnone : ∀ pair, more.filterMap (krakenHolds conv now pair) = [] := fun pair =>
        List.filterMap_eq_nil_iff.2 fun payload' hp => krakenHolds_of_not (hmore payload' hp)
      unfold Exchange.holds
      rcases hfirst with hlast | hfirst
      · have hpair : (payload :: more).getLast? = some (.string KrakenAdapter.symbol) := by
          rw [List.getLast?_cons, hlast, Option.getD_some]
        simp only [hpair]
        rw [List.filterMap_cons, hnone]
        cases krakenHolds conv now KrakenAdapter.symbol payload <;> rfl
      · simp only [krakenHolds_of_not hfirst, List.filterMap_cons, hnone, Option.toList_none]
        split <;> rfl
    | .object members => exact congrArg Option.toList (kraken_event_object now members)
    | .array [channel] | .array [] | .null | .boolean _ | .number_unsigned _ | .number_integer _ | .number_float _
    | .string _ => rfl

end CryptoHft
