import CryptoHft.Exchanges.Deliveries
import CryptoHft.Exchanges.Handlers

/-!
# Market data on the wire

A document with market data is an envelope, by which `on_message` finds the handler, around the data that the handler
reads (`Framed`).

* A document hands a callback exactly the event that its data carry, and only if it is framed (`event_iff`).
* Every event has a document in the form that the handlers read (`documentOf`), and reading it gives the event back
  (`event_documentOf`), with the time of receipt where the handler reads none, and with the one symbol of Kraken. This is
  a form that the adapters understand, not what the exchanges send: Kraken sends the two sides of an update as two
  payloads, of which the adapter reads the first.
-/

namespace CryptoHft

open Outcome

variable {D : Type}

/-! ## Envelopes -/

/-- `on_message` passes the data of the document to the handler. -/
inductive Framed : Exchange → Handler → Json → Json → Prop
  | coinbaseSnapshot {data : Json} (ht : data.lookup "type" = some (.string "snapshot")) :
      Framed .coinbase .snapshot data data
  | coinbaseL2update {data : Json} (ht : data.lookup "type" = some (.string "l2update")) :
      Framed .coinbase .l2update data data
  | krakenSnapshot {channel data : Json} {rest : List Json} (hs : (data.contains "bs" || data.contains "as") = true) :
      Framed .kraken .snapshot (.array (channel :: data :: rest)) data
  | krakenL2update {channel data : Json} {rest : List Json} (hs : (data.contains "bs" || data.contains "as") = false)
      (hu : (data.contains "b" || data.contains "a") = true) :
      Framed .kraken .l2update (.array (channel :: data :: rest)) data
  | binanceSnapshot {data : Json} (hr : (data.contains "result" || data.contains "id") = false)
      (he : data.lookup "e" ≠ some (.string "depthUpdate")) (hu : data.contains "lastUpdateId" = true) :
      Framed .binance .snapshot data data
  | binanceL2update {data : Json} (hr : (data.contains "result" || data.contains "id") = false)
      (he : data.lookup "e" = some (.string "depthUpdate")) : Framed .binance .l2update data data

variable (conv : Conversions D)

/-- What the handler reads, as an event. -/
def Exchange.read (now : Int) (data : Json) : Exchange → Handler → Outcome (MarketEvent D)
  | coinbase, .snapshot => .snapshot <$> CoinbaseAdapter.readSnapshot conv now data
  | coinbase, .l2update => .delta <$> CoinbaseAdapter.readL2update conv now data
  | kraken, .snapshot => .snapshot <$> KrakenAdapter.readSnapshot conv now data
  | kraken, .l2update => .delta <$> KrakenAdapter.readL2update conv now data
  | binance, .snapshot => .snapshot <$> BinanceAdapter.readSnapshot conv data
  | binance, .l2update => .delta <$> BinanceAdapter.readL2update conv data

variable {conv} {ex : Exchange} {handler : Handler} {now : Int} {doc data : Json} {ev : MarketEvent D}

theorem map_eq_ok {α β : Type} {f : α → β} {x : Outcome α} {b : β} : f <$> x = .ok b ↔ ∃ a, x = .ok a ∧ f a = b := by
  rcases x with e | a
  · exact iff_of_false nofun nofun
  · constructor
    · intro h
      cases h
      exact ⟨a, rfl, rfl⟩
    · rintro ⟨_, ha, rfl⟩
      cases ha
      rfl

theorem map_toOption_eq_some {α : Type} {event : α → MarketEvent D} {read : Outcome α} :
    read.toOption.map event = some ev ↔ event <$> read = .ok ev := by
  rw [← toOption_map, toOption_eq_some]

theorem any_equalsString {v : Option Json} {s : String} :
    v.any (Json.equalsString s) = true ↔ v = some (.string s) := by
  cases v with
  | none => exact iff_of_false nofun nofun
  | some v => cases v <;> simp [Json.equalsString]

/-- A framed document hands on what the handler reads. -/
theorem event_of_framed (h : Framed ex handler doc data) :
    (ex.verdict conv now (some doc)).event = some ev ↔ ex.read conv now data handler = .ok ev := by
  cases h with
  | coinbaseSnapshot ht =>
    simp only [Exchange.verdict, CoinbaseAdapter.verdict, ht, CoinbaseAdapter.typeVerdict, String.reduceEq, ↓reduceIte]
    rw [event_ofRead_stops]
    exact map_toOption_eq_some
  | coinbaseL2update ht =>
    simp only [Exchange.verdict, CoinbaseAdapter.verdict, ht, CoinbaseAdapter.typeVerdict, String.reduceEq, ↓reduceIte]
    rw [event_ofRead_stops]
    exact map_toOption_eq_some
  | krakenSnapshot hs =>
    simp only [Exchange.verdict, KrakenAdapter.verdict, Json.lookup, KrakenAdapter.bookVerdict, hs, ↓reduceIte]
    rw [event_ofRead_readsOn]
    exact map_toOption_eq_some
  | krakenL2update hs hu =>
    simp only [Exchange.verdict, KrakenAdapter.verdict, Json.lookup, KrakenAdapter.bookVerdict, hs, hu,
      Bool.false_eq_true, ↓reduceIte]
    rw [event_ofRead_readsOn]
    exact map_toOption_eq_some
  | binanceSnapshot hr he hu =>
    rw [Exchange.verdict, BinanceAdapter.verdict, if_neg (by rw [hr]; exact Bool.false_ne_true),
      if_neg (mt any_equalsString.1 he), if_pos hu]
    rw [event_ofRead_readsOn]
    exact map_toOption_eq_some
  | binanceL2update hr he =>
    rw [Exchange.verdict, BinanceAdapter.verdict, if_neg (by rw [hr]; exact Bool.false_ne_true),
      if_pos (any_equalsString.2 he)]
    rw [event_ofRead_readsOn]
    exact map_toOption_eq_some

/-- A document with an event is framed. -/
theorem framed_of_event (h : (ex.verdict conv now (some doc)).event = some ev) :
    ∃ handler data, Framed ex handler doc data := by
  cases ex with
  | coinbase =>
    simp only [Exchange.verdict, CoinbaseAdapter.verdict] at h
    split at h
    · next type ht =>
      unfold CoinbaseAdapter.typeVerdict at h
      split at h
      · unfold CoinbaseAdapter.errorVerdict at h
        repeat' split at h
        all_goals cases h
      split at h
      · unfold CoinbaseAdapter.authenticateVerdict at h
        repeat' split at h
        all_goals cases h
      split at h
      · cases h
      split at h
      · next hs => exact ⟨.snapshot, doc, .coinbaseSnapshot (hs ▸ ht)⟩
      split at h
      · next hu => exact ⟨.l2update, doc, .coinbaseL2update (hu ▸ ht)⟩
      · cases h
    · cases h
  | kraken =>
    simp only [Exchange.verdict, KrakenAdapter.verdict] at h
    split at h
    · split at h <;> cases h
    · cases h
    · unfold KrakenAdapter.bookVerdict at h
      split at h
      · next channel book rest _ =>
        split at h
        · next hs => exact ⟨.snapshot, book, .krakenSnapshot hs⟩
        next hs =>
        split at h
        · next hu => exact ⟨.l2update, book, .krakenL2update (Bool.eq_false_iff.2 hs) hu⟩
        · cases h
      · cases h
  | binance =>
    simp only [Exchange.verdict, BinanceAdapter.verdict] at h
    split at h
    · cases h
    next hr =>
    have hr := Bool.eq_false_iff.2 hr
    split at h
    · next he => exact ⟨.l2update, doc, .binanceL2update hr (any_equalsString.1 he)⟩
    next he =>
    split at h
    · next hu => exact ⟨.snapshot, doc, .binanceSnapshot hr (mt any_equalsString.2 he) hu⟩
    · cases h

/-! ## What a document carries -/

/-- On level lists that are long enough, a handler reads what the data carry. -/
theorem read_eq_ok (h : HasLevelLists ex handler data) :
    ex.read conv now data handler = .ok ev ↔ Carries conv ex handler now data ev := by
  cases handler with
  | snapshot =>
    have hread : ∀ (read : Outcome (OrderBookSnapshot D)),
        (∀ snapshot, read = .ok snapshot ↔ Carries conv ex .snapshot now data (.snapshot snapshot)) →
        (MarketEvent.snapshot <$> read = .ok ev ↔ Carries conv ex .snapshot now data ev) := by
      intro read hr
      rw [map_eq_ok]
      constructor
      · rintro ⟨snapshot, hs, rfl⟩
        exact (hr snapshot).1 hs
      · intro hc
        obtain ⟨snapshot, rfl⟩ := snapshot_of_carries hc
        exact ⟨snapshot, (hr snapshot).2 hc, rfl⟩
    cases ex with
    | coinbase => exact hread _ (coinbase_readSnapshot_eq_ok h)
    | kraken => exact hread _ (kraken_readSnapshot_eq_ok h)
    | binance => exact hread _ (binance_readSnapshot_eq_ok h)
  | l2update =>
    have hread : ∀ (read : Outcome (OrderBookDelta D)),
        (∀ delta, read = .ok delta ↔ Carries conv ex .l2update now data (.delta delta)) →
        (MarketEvent.delta <$> read = .ok ev ↔ Carries conv ex .l2update now data ev) := by
      intro read hr
      rw [map_eq_ok]
      constructor
      · rintro ⟨delta, hs, rfl⟩
        exact (hr delta).1 hs
      · intro hc
        obtain ⟨delta, rfl⟩ := delta_of_carries hc
        exact ⟨delta, (hr delta).2 hc, rfl⟩
    cases ex with
    | coinbase => exact hread _ (coinbase_readL2update_eq_ok h)
    | kraken => exact hread _ (kraken_readL2update_eq_ok h)
    | binance => exact hread _ (binance_readL2update_eq_ok h)

/-- **The event of a document**: where all level lists are long enough, a callback gets exactly what the data of a
framed document carry, and nothing from any other document. -/
theorem event_iff (hlists : ∀ handler data, Framed ex handler doc data → HasLevelLists ex handler data) :
    (ex.verdict conv now (some doc)).event = some ev ↔
      ∃ handler data, Framed ex handler doc data ∧ Carries conv ex handler now data ev := by
  constructor
  · intro h
    obtain ⟨handler, data, hf⟩ := framed_of_event h
    exact ⟨handler, data, hf, (read_eq_ok (hlists handler data hf)).1 ((event_of_framed hf).1 h)⟩
  · rintro ⟨handler, data, hf, hc⟩
    exact (event_of_framed hf).2 ((read_eq_ok (hlists handler data hf)).2 hc)

/-! ## An event as a document -/

section Writing

variable (text : D → String)

def levelsText (levels : List (D × D)) : Json :=
  .array (levels.map fun p => .array [.string (text p.1), .string (text p.2)])

/-- The changes of one side. -/
def changesText (side : String) (levels : List (D × D)) : List Json :=
  levels.map fun p => .array [.string side, .string (text p.1), .string (text p.2)]

def timestampText (timestamp : Int) : Json := .number_unsigned (timestamp % 2 ^ 64).toNat

/-- A document of an event, in the form that the handlers read: one payload, with the fields that they read. -/
def Exchange.documentOf : Exchange → MarketEvent D → Json
  | coinbase, .snapshot s => .object [("type", .string "snapshot"), ("product_id", .string s.symbol),
      ("bids", levelsText text s.bids), ("asks", levelsText text s.asks)]
  | coinbase, .delta d => .object [("type", .string "l2update"), ("product_id", .string d.symbol),
      ("changes", .array (changesText text "buy" d.bidUpdates ++ changesText text "sell" d.askUpdates))]
  | kraken, .snapshot s => .array [.number_unsigned 0,
      .object [("bs", levelsText text s.bids), ("as", levelsText text s.asks)], .string "book-10", .string s.symbol]
  | kraken, .delta d => .array [.number_unsigned 0,
      .object [("b", levelsText text d.bidUpdates), ("a", levelsText text d.askUpdates)], .string "book-10",
      .string d.symbol]
  | binance, .snapshot s => .object [("lastUpdateId", timestampText s.timestamp), ("symbol", .string s.symbol),
      ("bids", levelsText text s.bids), ("asks", levelsText text s.asks)]
  | binance, .delta d => .object [("e", .string "depthUpdate"), ("s", .string d.symbol),
      ("u", timestampText d.timestamp), ("b", levelsText text d.bidUpdates), ("a", levelsText text d.askUpdates)]

/-- What arrives of an event: the handlers of Coinbase and Kraken read no time, and those of Kraken no pair. -/
def Exchange.arrival (now : Int) : Exchange → MarketEvent D → MarketEvent D
  | coinbase, .snapshot s => .snapshot { s with timestamp := now }
  | coinbase, .delta d => .delta { d with timestamp := now }
  | kraken, .snapshot s => .snapshot { s with symbol := KrakenAdapter.symbol, timestamp := now }
  | kraken, .delta d => .delta { d with symbol := KrakenAdapter.symbol, timestamp := now }
  | binance, .snapshot s => .snapshot { s with timestamp := Int.bmod s.timestamp (2 ^ 64) }
  | binance, .delta d => .delta { d with timestamp := Int.bmod d.timestamp (2 ^ 64) }

variable (conv)

/-- The numbers of the levels read back from their texts. -/
def LevelsWritten (levels : List (D × D)) : Prop :=
  ∀ p ∈ levels, conv.stod (text p.1) = some p.1 ∧ conv.stod (text p.2) = some p.2

def Written : MarketEvent D → Prop
  | .snapshot s => LevelsWritten conv text s.bids ∧ LevelsWritten conv text s.asks
  | .delta d => LevelsWritten conv text d.bidUpdates ∧ LevelsWritten conv text d.askUpdates

variable {text conv} {levels : List (D × D)} {key side : String}

theorem isLevelList_text : IsLevelList 0 (levelsText text levels) := by
  refine ⟨_, rfl, fun level hl => ?_⟩
  obtain ⟨p, -, rfl⟩ := List.mem_map.1 hl
  exact ⟨_, rfl, Nat.one_lt_two⟩

theorem levelList_text (h : data.lookup key = some (levelsText text levels)) : LevelListAt 0 key data :=
  ⟨_, h, isLevelList_text⟩

theorem optionalLevelList_text (h : data.lookup key = some (levelsText text levels)) : OptionalLevelListAt key data := by
  intro levels' hl
  rw [h] at hl
  cases hl
  exact isLevelList_text

theorem levelsAre_text (h : data.lookup key = some (levelsText text levels)) (hw : LevelsWritten conv text levels) :
    LevelsAre conv key data levels := by
  refine ⟨_, h, ?_⟩
  rw [List.forall₂_map_left_iff, List.forall₂_same]
  exact fun p hp => ⟨_, _, _, rfl, rfl, (hw p hp).1, rfl, (hw p hp).2⟩

theorem changes_text (hw : LevelsWritten conv text levels) :
    List.Forall₂ (LevelIs conv 1) (changesText text side levels) levels := by
  rw [changesText, List.forall₂_map_left_iff, List.forall₂_same]
  exact fun p hp => ⟨_, _, _, rfl, rfl, (hw p hp).1, rfl, (hw p hp).2⟩

theorem filter_changesText (side' : String) : (changesText text side levels).filter (OnSide side') =
    if side = side' then changesText text side levels else [] := by
  split
  · next h =>
    rw [List.filter_eq_self]
    intro change hc
    obtain ⟨p, -, rfl⟩ := List.mem_map.1 hc
    simpa [OnSide, Json.equalsString] using h
  · next h =>
    rw [List.filter_eq_nil_iff]
    intro change hc
    obtain ⟨p, -, rfl⟩ := List.mem_map.1 hc
    simpa [OnSide, Json.equalsString] using h

theorem timestampOf_text (timestamp : Int) :
    conv.timestampOf (timestampText timestamp) = .ok (Int.bmod timestamp (2 ^ 64)) := by
  have hnonneg : 0 ≤ timestamp % 2 ^ 64 := Int.emod_nonneg _ (by decide)
  have hbmod : Int.bmod (timestamp % 2 ^ 64) (2 ^ 64) = Int.bmod timestamp (2 ^ 64) := by
    exact_mod_cast Int.emod_bmod timestamp (2 ^ 64)
  simp only [Conversions.timestampOf, timestampText, Json.getUint64, bind_ok, pure_eq, Int.toNat_of_nonneg hnonneg,
    hbmod]

/-- The document of an event is framed, and its data carry what arrives of the event. -/
theorem documentOf_carries (h : Written conv text ev) (ex : Exchange) (now : Int) : ∃ handler data,
    Framed ex handler (ex.documentOf text ev) data ∧ HasLevelLists ex handler data ∧
      Carries conv ex handler now data (ex.arrival now ev) := by
  cases ev with
  | snapshot s =>
    obtain ⟨hbids, hasks⟩ := h
    cases ex with
    | coinbase =>
      exact ⟨.snapshot, _, .coinbaseSnapshot rfl, ⟨levelList_text rfl, levelList_text rfl⟩,
        _, _, _, rfl, levelsAre_text rfl hbids, levelsAre_text rfl hasks, rfl⟩
    | kraken =>
      exact ⟨.snapshot, _, .krakenSnapshot rfl, ⟨optionalLevelList_text rfl, optionalLevelList_text rfl⟩,
        _, _, .inr (levelsAre_text rfl hbids), .inr (levelsAre_text rfl hasks), rfl⟩
    | binance =>
      exact ⟨.snapshot, _, .binanceSnapshot rfl nofun rfl, ⟨levelList_text rfl, levelList_text rfl⟩,
        _, _, _, _, rfl, ⟨_, rfl, timestampOf_text s.timestamp⟩, levelsAre_text rfl hbids, levelsAre_text rfl hasks, rfl⟩
  | delta d =>
    obtain ⟨hbids, hasks⟩ := h
    cases ex with
    | coinbase =>
      have hchanges : ∀ change ∈ changesText text "buy" d.bidUpdates ++ changesText text "sell" d.askUpdates,
          ∃ side, ∃ p ∈ d.bidUpdates ++ d.askUpdates, change = .array [.string side, .string (text p.1),
            .string (text p.2)] := by
        intro change hc
        rcases List.mem_append.1 hc with hc | hc
        · obtain ⟨p, hp, rfl⟩ := List.mem_map.1 hc
          exact ⟨"buy", p, List.mem_append_left _ hp, rfl⟩
        · obtain ⟨p, hp, rfl⟩ := List.mem_map.1 hc
          exact ⟨"sell", p, List.mem_append_right _ hp, rfl⟩
      refine ⟨.l2update, _, .coinbaseL2update rfl, ⟨_, rfl, _, rfl, fun change hc => ?_⟩, _, _, _, rfl,
        ⟨_, rfl, fun change hc => ?_, ?_, ?_⟩, rfl⟩
      · obtain ⟨side, p, -, rfl⟩ := hchanges change hc
        exact ⟨_, rfl, Nat.lt_succ_self 2⟩
      · obtain ⟨side, p, hp, rfl⟩ := hchanges change hc
        have hw := (List.mem_append.1 hp).elim (hbids p) (hasks p)
        exact ⟨_, rfl, ⟨_, _, rfl, hw.1⟩, ⟨_, _, rfl, hw.2⟩⟩
      · rw [List.filter_append, filter_changesText, filter_changesText, if_pos rfl, if_neg (by decide), List.append_nil]
        exact changes_text hbids
      · rw [List.filter_append, filter_changesText, filter_changesText, if_pos rfl, if_neg (by decide), List.nil_append]
        exact changes_text hasks
    | kraken =>
      exact ⟨.l2update, _, .krakenL2update rfl rfl, ⟨optionalLevelList_text rfl, optionalLevelList_text rfl⟩,
        _, _, .inr (levelsAre_text rfl hbids), .inr (levelsAre_text rfl hasks), rfl⟩
    | binance =>
      exact ⟨.l2update, _, .binanceL2update rfl rfl, ⟨levelList_text rfl, levelList_text rfl⟩,
        _, _, _, _, rfl, ⟨_, rfl, timestampOf_text d.timestamp⟩, levelsAre_text rfl hbids, levelsAre_text rfl hasks, rfl⟩

/-- **Reading an event back**: from a document in the form that the handlers read, the adapter hands on its event, up to
what they do not read. -/
theorem event_documentOf (h : Written conv text ev) (ex : Exchange) (now : Int) :
    (ex.verdict conv now (some (ex.documentOf text ev))).event = some (ex.arrival now ev) := by
  obtain ⟨handler, data, hf, hlists, hc⟩ := documentOf_carries h ex now
  exact (event_of_framed hf).2 ((read_eq_ok hlists).2 hc)

end Writing

section Example

/-- An update of Kraken whose levels carry the time as a third element, with a second payload after the first. -/
def twoPayloads : Json :=
  .array [.number_unsigned 336,
    .object [("a", .array [.array [.string "101", .string "1", .string "1534614248.765567"]])],
    .object [("b", .array [.array [.string "100", .string "1", .string "1534614248.765567"]])],
    .string "book-10", .string "XBT/USD"]

/-- Only the first payload is read. -/
theorem twoPayloads_event :
    (Exchange.kraken.verdict KrakenAdapter.prices 7 (some twoPayloads)).event =
      some (.delta ⟨"BTC/USD", [], [(101, 1)], 7⟩) := by
  refine (event_iff fun handler data hf => ?_).2
    ⟨.l2update, _, .krakenL2update rfl rfl, [], [(101, 1)], .inl ⟨rfl, rfl⟩, .inr ⟨_, rfl, ?_⟩, rfl⟩
  · cases hf with
    | krakenSnapshot hs => cases hs
    | krakenL2update hs hu =>
      refine And.intro (fun levels hl => by cases hl) fun levels hl => ?_
      cases hl
      exact ⟨_, rfl, by simp⟩
  · exact .cons ⟨_, _, _, rfl, rfl, rfl, rfl, rfl⟩ .nil

/-- Prices as text. -/
def priceText (x : ℤ) : String := if x = 100 then "100" else if x = 101 then "101" else "1"

theorem update_read_back :
    (Exchange.binance.verdict KrakenAdapter.prices 7
      (some (Exchange.binance.documentOf priceText (.delta ⟨"BTCUSDT", [(100, 1)], [(101, 1)], -1⟩)))).event =
      some (.delta ⟨"BTCUSDT", [(100, 1)], [(101, 1)], -1⟩) := by
  have hwritten : Written KrakenAdapter.prices priceText (.delta ⟨"BTCUSDT", [(100, 1)], [(101, 1)], -1⟩) := by
    constructor <;> intro p hp <;> cases List.mem_singleton.1 hp <;> exact ⟨rfl, rfl⟩
  exact event_documentOf hwritten .binance 7

end Example

end CryptoHft
