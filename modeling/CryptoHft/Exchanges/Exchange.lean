import CryptoHft.Exchanges.BinanceAdapter
import CryptoHft.Exchanges.CoinbaseAdapter
import CryptoHft.Exchanges.KrakenAdapter

/-!
# What a message makes an adapter do

The three `on_message` differ in their dispatch and agree in their effects. A `Verdict` names the effect: read on or
stop reading, with or without a call of a callback; on Coinbase also authenticate, or disconnect after a failed
authentication.

* `onMessage_eq`: the adapter's `on_message` carries out the verdict on the document (`verdict`).
* `stops_iff`: the documents whose verdict leaves the adapter connected without a read (`StopsReading`).
-/

namespace CryptoHft

open Outcome

variable {D : Type} (conv : Conversions D)

inductive Verdict (D : Type)
  | readsOn (event : Option (MarketEvent D))
  | stops (event : Option (MarketEvent D))
  | authenticates
  | rejected
  | failed
  | undefined

namespace Adapter

/-- The callback that the event is for is called, if it is there. -/
def emit (s : Adapter D) : Option (MarketEvent D) → Adapter D
  | none => s
  | some (.snapshot snapshot) => s.callOrderBook snapshot
  | some (.delta delta) => s.callOrderBookDelta delta

/-- The callback of the event is there. -/
def wants (s : Adapter D) : MarketEvent D → Bool
  | .snapshot _ => s.orderBookCallback
  | .delta _ => s.orderBookDeltaCallback

/-- Nothing but the calls changes. -/
theorem emit_eq (s : Adapter D) (event : Option (MarketEvent D)) :
    s.emit event = { s with calls := s.calls ++ event.toList.filter s.wants } := by
  obtain ⟨_, _, _, _, _, _, _, _, wantsSnapshots, wantsDeltas, _⟩ := s
  rcases event with _ | snapshot | delta
  · simp [emit]
  · cases wantsSnapshots with
    | true => rfl
    | false => simp [emit, callOrderBook, wants]
  · cases wantsDeltas with
    | true => rfl
    | false => simp [emit, callOrderBookDelta, wants]

end Adapter

/-- How `on_message` goes on after its `try` block. -/
def Adapter.settle (body : Outcome (Flow × Adapter D)) (s : Adapter D) : Outcome (Adapter D) :=
  match body with
  | .ok (.returned, s') => .ok s'
  | .ok (.fallsThrough, s') => .ok s'.doRead
  | .error .exception => .ok s.doRead
  | .error .undefined => .error .undefined

namespace Verdict

def effect (s : Adapter D) : Verdict D → Outcome (Adapter D)
  | readsOn event => .ok (s.emit event).doRead
  | stops event => .ok (s.emit event)
  | authenticates => .ok { s with authenticated := true }
  | rejected => .ok ({ s with authenticated := false }.disconnect .io)
  | failed => .ok (s.disconnect .io)
  | undefined => .error .undefined

/-- The verdict on a handled document, from what the handler reads. -/
def ofRead {α : Type} (event : α → MarketEvent D) (verdict : Option (MarketEvent D) → Verdict D) :
    Outcome α → Verdict D
  | .ok a => verdict (some (event a))
  | .error .exception => verdict none
  | .error .undefined => undefined

end Verdict

@[simp] theorem settle_throws (s : Adapter D) :
    Adapter.settle (.error .exception) s = (Verdict.readsOn none).effect s := rfl

@[simp] theorem settle_returned (s : Adapter D) :
    Adapter.settle (.ok (.returned, s)) s = (Verdict.stops none).effect s := rfl

@[simp] theorem settle_fallsThrough (s : Adapter D) :
    Adapter.settle (.ok (.fallsThrough, s)) s = (Verdict.readsOn none).effect s := rfl

theorem settle_stops {α : Type} (read : Outcome α) (event : α → MarketEvent D) (s : Adapter D) :
    Adapter.settle (do return (.returned, ← Adapter.handle read (fun a s => s.emit (some (event a))) s)) s =
      (Verdict.ofRead event .stops read).effect s := by
  rcases read with (_ | _) | a <;> rfl

theorem settle_readsOn {α : Type} (read : Outcome α) (event : α → MarketEvent D) (s : Adapter D) :
    Adapter.settle (do return (.fallsThrough, ← Adapter.handle read (fun a s => s.emit (some (event a))) s)) s =
      (Verdict.ofRead event .readsOn read).effect s := by
  rcases read with (_ | _) | a <;> rfl

theorem onMessage_message (connect : Attempt → Adapter D → Adapter D × Bool)
    (body : Int → Option Json → Adapter D → Outcome (Flow × Adapter D)) (now : Int) (doc : Option Json)
    (s : Adapter D) : Adapter.onMessage connect body (.message now doc) s = Adapter.settle (body now doc s) s := by
  simp only [Adapter.onMessage, Adapter.settle]
  rcases body now doc s with (_ | _) | ⟨_ | _, s'⟩ <;> rfl

/-! ## Coinbase -/

namespace CoinbaseAdapter

/-- The field is there and not a string. -/
def illTyped (data : Json) (key : String) : Bool :=
  match data.lookup key with
  | some (.string _) => false
  | some _ => true
  | none => false

def errorVerdict (data : Json) : Verdict D :=
  if ["message", "error", "details"].any (illTyped data) then .readsOn none
  else
    match data.lookup "error" with
    | some (.string "authentication_failed") => .failed
    | _ => .stops none

def authenticateVerdict (data : Json) : Verdict D :=
  match data.lookup "success" with
  | some (.boolean true) => .authenticates
  | some (.boolean false) => .rejected
  | some _ => .readsOn none
  | none => .rejected

def typeVerdict (now : Int) (data : Json) (type : String) : Verdict D :=
  if type = "error" then errorVerdict data
  else if type = "authenticate" then authenticateVerdict data
  else if type = "subscriptions" then .stops none
  else if type = "snapshot" then .ofRead .snapshot .stops (readSnapshot conv now data)
  else if type = "l2update" then .ofRead .delta .stops (readL2update conv now data)
  else .readsOn none

def verdict (now : Int) : Option Json → Verdict D
  | none => .readsOn none
  | some data =>
    match data.lookup "type" with
    | some (.string type) => typeVerdict conv now data type
    | _ => .readsOn none

theorem logField_eq (data : Json) (key : String) :
    logField data key = if illTyped data key then .error .exception else .ok () := by
  unfold logField illTyped
  cases h : data.lookup key with
  | none => simp [Json.contains, h]
  | some v => cases v <;> simp [Json.contains, h, Json.mutableKey_of_lookup h, Json.getString]

variable {conv}

theorem messageBody_untyped {now : Int} {data : Json} (h : data.lookup "type" = none) (s : Adapter D) :
    messageBody conv now (some data) s = .ok (.fallsThrough, s) := by
  simp [messageBody, parsed, Json.contains, h]

theorem messageBody_illTyped {now : Int} {data v : Json} (h : data.lookup "type" = some v)
    (hv : ∀ t, v ≠ .string t) (s : Adapter D) : messageBody conv now (some data) s = .error .exception := by
  cases v <;> simp [messageBody, parsed, Json.contains, h, Json.mutableKey_of_lookup h, Json.getString] at hv ⊢

theorem messageBody_error {now : Int} {data : Json} (h : data.lookup "type" = some (.string "error"))
    (s : Adapter D) : Adapter.settle (messageBody conv now (some data) s) s = (errorVerdict data).effect s := by
  simp only [messageBody, parsed, Json.contains, h, Json.mutableKey_of_lookup h, Json.getString, logField_eq, bind_ok,
    Option.isSome_some, ↓reduceIte, errorVerdict, List.any_cons, List.any_nil, Bool.or_false]
  by_cases hm : illTyped data "message" = true
  · simp [hm]
  by_cases he : illTyped data "error" = true
  · simp [hm, he]
  by_cases hd : illTyped data "details" = true
  · simp [hm, he, hd]
  simp only [hm, he, hd, Bool.false_eq_true, ↓reduceIte, bind_ok, Bool.or_self]
  cases hl : data.lookup "error" with
  | none => simp
  | some v =>
    cases v with
    | string t =>
      by_cases ht : t = "authentication_failed"
      · subst ht
        simp [Json.mutableKey_of_lookup hl, Adapter.settle, Verdict.effect]
      · simp [Json.mutableKey_of_lookup hl, ht]
    | _ => simp [illTyped, hl] at he

theorem settle_authenticate {now : Int} {data : Json} (h : data.lookup "type" = some (.string "authenticate"))
    (s : Adapter D) :
    Adapter.settle (messageBody conv now (some data) s) s =
      match succeeded data with
      | .ok true => Verdict.authenticates.effect s
      | .ok false => Verdict.rejected.effect s
      | .error .exception => (Verdict.readsOn none).effect s
      | .error .undefined => Verdict.undefined.effect s := by
  simp only [messageBody, parsed, Json.contains, h, Json.mutableKey_of_lookup h, Json.getString, bind_ok,
    Option.isSome_some, ↓reduceIte, String.reduceEq]
  rcases succeeded data with (_ | _) | (_ | _) <;> rfl

theorem messageBody_authenticate {now : Int} {data : Json} (h : data.lookup "type" = some (.string "authenticate"))
    (s : Adapter D) :
    Adapter.settle (messageBody conv now (some data) s) s = (authenticateVerdict data).effect s := by
  rw [settle_authenticate h, succeeded, authenticateVerdict]
  cases hl : data.lookup "success" with
  | none => simp [Json.contains, hl]
  | some v =>
    simp only [Json.contains, hl, Option.isSome_some, ↓reduceIte, Json.mutableKey_of_lookup hl, bind_ok]
    cases v with
    | boolean b => cases b <;> rfl
    | _ => rfl

theorem messageBody_typed {now : Int} {data : Json} {type : String} (h : data.lookup "type" = some (.string type))
    (s : Adapter D) :
    Adapter.settle (messageBody conv now (some data) s) s = (typeVerdict conv now data type).effect s := by
  unfold typeVerdict
  split
  · next ht => subst ht; exact messageBody_error h s
  split
  · next ht => subst ht; exact messageBody_authenticate h s
  next hne hna =>
  simp only [messageBody, parsed, Json.contains, h, Json.mutableKey_of_lookup h, Json.getString, bind_ok,
    Option.isSome_some, ↓reduceIte, hne, hna]
  split
  · rfl
  split
  · exact settle_stops (readSnapshot conv now data) .snapshot s
  split
  · exact settle_stops (readL2update conv now data) .delta s
  · rfl

/-- The adapter carries out the verdict. -/
theorem onMessage_eq (now : Int) (doc : Option Json) (s : Adapter D) :
    onMessage conv (.message now doc) s = (verdict conv now doc).effect s := by
  rw [onMessage, onMessage_message]
  cases doc with
  | none => rfl
  | some data =>
    cases h : data.lookup "type" with
    | none => rw [messageBody_untyped h, verdict, h]; rfl
    | some v =>
      cases v with
      | string type => rw [messageBody_typed h, verdict, h]
      | _ => rw [messageBody_illTyped h nofun, verdict, h]; rfl

end CoinbaseAdapter

/-! ## Kraken -/

namespace KrakenAdapter

def bookVerdict (now : Int) (data : Json) : Verdict D :=
  match data with
  | .array (_ :: book :: _) =>
    if book.contains "bs" || book.contains "as" then .ofRead .snapshot .readsOn (readSnapshot conv now book)
    else if book.contains "b" || book.contains "a" then .ofRead .delta .readsOn (readL2update conv now book)
    else .readsOn none
  | _ => .readsOn none

def verdict (now : Int) : Option Json → Verdict D
  | none => .readsOn none
  | some data =>
    match data.lookup "event" with
    | some (.string event) =>
      if event ∈ ["systemStatus", "subscriptionStatus", "error"] then .stops none else .readsOn none
    | some _ => .readsOn none
    | none => bookVerdict conv now data

variable {conv}

theorem settle_book {now : Int} {data : Json} (h : data.lookup "event" = none) (s : Adapter D) :
    Adapter.settle (messageBody conv now (some data) s) s = (bookVerdict conv now data).effect s := by
  have hc : data.contains "event" = false := by simp [Json.contains, h]
  simp only [messageBody, parsed, hc, bind_ok, Bool.false_eq_true, ↓reduceIte, bookVerdict]
  cases data with
  | array elements =>
    match elements with
    | [] | [_] => rfl
    | _ :: book :: _ =>
      simp only [Json.isArrayOf, List.length_cons, Nat.le_add_left, decide_true, ↓reduceIte, Json.mutableIndex,
        List.getElem?_cons_succ, List.getElem?_cons_zero, Option.getD_some, bind_ok]
      by_cases hs : (book.contains "bs" || book.contains "as") = true
      · rw [if_pos hs, if_pos hs]
        exact settle_readsOn (readSnapshot conv now book) .snapshot s
      rw [if_neg hs, if_neg hs]
      by_cases hu : (book.contains "b" || book.contains "a") = true
      · rw [if_pos hu, if_pos hu]
        exact settle_readsOn (readL2update conv now book) .delta s
      · rw [if_neg hu, if_neg hu]
        rfl
  | _ => rfl

theorem settle_event {now : Int} {data : Json} {event : String} (h : data.lookup "event" = some (.string event))
    (s : Adapter D) :
    Adapter.settle (messageBody conv now (some data) s) s =
      (if event ∈ ["systemStatus", "subscriptionStatus", "error"] then Verdict.stops none
        else Verdict.readsOn none).effect s := by
  have hobj : data.isArrayOf 2 = false := by
    cases data with
    | array elements => cases h
    | _ => rfl
  simp only [messageBody, parsed, Json.contains, h, Json.mutableKey_of_lookup h, Json.getString, bind_ok,
    Option.isSome_some, ↓reduceIte, hobj, Bool.false_eq_true, List.mem_cons, List.not_mem_nil, or_false]
  by_cases h₁ : event = "systemStatus"
  · simp [h₁]
  by_cases h₂ : event = "subscriptionStatus"
  · simp [h₂]
  by_cases h₃ : event = "error"
  · simp [h₃]
  · simp [h₁, h₂, h₃]

/-- The adapter carries out the verdict. -/
theorem onMessage_eq (now : Int) (doc : Option Json) (s : Adapter D) :
    onMessage conv (.message now doc) s = (verdict conv now doc).effect s := by
  rw [onMessage, onMessage_message]
  cases doc with
  | none => rfl
  | some data =>
    cases h : data.lookup "event" with
    | none => rw [settle_book h, verdict, h]
    | some v =>
      cases v with
      | string event => rw [settle_event h, verdict, h]
      | _ =>
        simp only [messageBody, parsed, Json.contains, h, Json.mutableKey_of_lookup h, Json.getString, bind_ok,
          Option.isSome_some, ↓reduceIte, verdict]
        rfl

end KrakenAdapter

/-! ## Binance -/

namespace BinanceAdapter

def verdict (_now : Int) : Option Json → Verdict D
  | none => .readsOn none
  | some data =>
    if data.contains "result" || data.contains "id" then .stops none
    else if (data.lookup "e").any (Json.equalsString "depthUpdate") then
      .ofRead .delta .readsOn (readL2update conv data)
    else if data.contains "lastUpdateId" then .ofRead .snapshot .readsOn (readSnapshot conv data)
    else .readsOn none

theorem isDepthUpdate_eq (data : Json) :
    isDepthUpdate data = .ok ((data.lookup "e").any (Json.equalsString "depthUpdate")) := by
  unfold isDepthUpdate
  cases h : data.lookup "e" with
  | none => simp [Json.contains, h]
  | some v => simp [Json.contains, h, Json.mutableKey_of_lookup h]

variable {conv}

/-- The adapter carries out the verdict. -/
theorem onMessage_eq (now : Int) (doc : Option Json) (s : Adapter D) :
    onMessage conv (.message now doc) s = (verdict conv now doc).effect s := by
  rw [onMessage, onMessage_message]
  cases doc with
  | none => rfl
  | some data =>
    simp only [messageBody, parsed, bind_ok, isDepthUpdate_eq, verdict]
    split
    · rfl
    split
    · exact settle_readsOn (readL2update conv data) .delta s
    split
    · exact settle_readsOn (readSnapshot conv data) .snapshot s
    · rfl

end BinanceAdapter

/-! ## The three adapters -/

inductive Exchange
  | coinbase
  | kraken
  | binance
deriving DecidableEq, Repr

namespace Exchange

def subscribeMsg : Exchange → List String → Json
  | coinbase => CoinbaseAdapter.subscribeMsg
  | kraken => KrakenAdapter.subscribeMsg
  | binance => BinanceAdapter.subscribeMsg

def unsubscribeMsg : Exchange → List String → Json
  | coinbase => CoinbaseAdapter.unsubscribeMsg
  | kraken => KrakenAdapter.unsubscribeMsg
  | binance => BinanceAdapter.unsubscribeMsg

def connect (caller : Caller) : Exchange → Attempt → Adapter D → Adapter D × Bool
  | coinbase => CoinbaseAdapter.connect caller
  | kraken => KrakenAdapter.connect caller
  | binance => BinanceAdapter.connect caller

def subscribe : Exchange → List String → Adapter D → Adapter D × Bool
  | coinbase => CoinbaseAdapter.subscribe
  | kraken => KrakenAdapter.subscribe
  | binance => BinanceAdapter.subscribe

def unsubscribe : Exchange → List String → Adapter D → Adapter D × Bool
  | coinbase => CoinbaseAdapter.unsubscribe
  | kraken => KrakenAdapter.unsubscribe
  | binance => BinanceAdapter.unsubscribe

def onMessage : Exchange → Completion → Adapter D → Outcome (Adapter D)
  | coinbase => CoinbaseAdapter.onMessage conv
  | kraken => KrakenAdapter.onMessage conv
  | binance => BinanceAdapter.onMessage conv

def verdict : Exchange → Int → Option Json → Verdict D
  | coinbase => CoinbaseAdapter.verdict conv
  | kraken => KrakenAdapter.verdict conv
  | binance => BinanceAdapter.verdict conv

variable {conv}

/-- **`on_message` carries out the verdict on the document.** -/
theorem onMessage_eq (ex : Exchange) (now : Int) (doc : Option Json) (s : Adapter D) :
    ex.onMessage conv (.message now doc) s = (ex.verdict conv now doc).effect s := by
  cases ex with
  | coinbase => exact CoinbaseAdapter.onMessage_eq now doc s
  | kraken => exact KrakenAdapter.onMessage_eq now doc s
  | binance => exact BinanceAdapter.onMessage_eq now doc s

/-! ## Messages after which nothing is read -/

/-- The documents that `on_message` answers by returning, with the adapter still connected. -/
def StopsReading : Exchange → Option Json → Prop
  | _, none => False
  | coinbase, some data => ∃ type, data.lookup "type" = some (.string type) ∧
      (type ∈ ["subscriptions", "snapshot", "l2update"] ∨
        type = "error" ∧ ["message", "error", "details"].any (CoinbaseAdapter.illTyped data) = false ∧
          data.lookup "error" ≠ some (.string "authentication_failed") ∨
        type = "authenticate" ∧ data.lookup "success" = some (.boolean true))
  | kraken, some data => ∃ event ∈ ["systemStatus", "subscriptionStatus", "error"],
      data.lookup "event" = some (.string event)
  | binance, some data => data.contains "result" = true ∨ data.contains "id" = true

end Exchange

/-- The verdict leaves the adapter connected and does not read. -/
def Verdict.Stops : Verdict D → Prop
  | .stops _ | .authenticates => True
  | _ => False

theorem Verdict.stops_ofRead {α : Type} {event : α → MarketEvent D} {read : Outcome α}
    (h : Verdict.ofRead event .stops read ≠ .undefined) : (Verdict.ofRead event .stops read).Stops := by
  rcases read with (_ | _) | a
  · trivial
  · exact absurd rfl h
  · trivial

theorem Verdict.not_stops_ofRead {α : Type} {event : α → MarketEvent D} {read : Outcome α} :
    ¬ (Verdict.ofRead event .readsOn read).Stops := by
  rcases read with (_ | _) | a <;> exact id

namespace CoinbaseAdapter

theorem errorVerdict_stops {data : Json} : (errorVerdict data : Verdict D).Stops ↔
    ["message", "error", "details"].any (illTyped data) = false ∧
      data.lookup "error" ≠ some (.string "authentication_failed") := by
  unfold errorVerdict
  split
  · next h => exact iff_of_false id fun h' => by rw [h] at h'; exact absurd h'.1 nofun
  next h =>
  rw [Bool.not_eq_true] at h
  split
  · next he => exact iff_of_false id fun h' => h'.2 he
  · next he => exact iff_of_true trivial ⟨h, fun h' => he h'⟩

theorem authenticateVerdict_stops {data : Json} :
    (authenticateVerdict data : Verdict D).Stops ↔ data.lookup "success" = some (.boolean true) := by
  unfold authenticateVerdict
  cases data.lookup "success" with
  | none => exact iff_of_false id nofun
  | some v =>
    cases v with
    | boolean b => cases b <;> simp [Verdict.Stops]
    | _ => simp [Verdict.Stops]

theorem typeVerdict_stops {now : Int} {data : Json} {type : String}
    (h : typeVerdict conv now data type ≠ .undefined) :
    (typeVerdict conv now data type).Stops ↔
      type ∈ ["subscriptions", "snapshot", "l2update"] ∨
        type = "error" ∧ ["message", "error", "details"].any (illTyped data) = false ∧
          data.lookup "error" ≠ some (.string "authentication_failed") ∨
        type = "authenticate" ∧ data.lookup "success" = some (.boolean true) := by
  unfold typeVerdict at h ⊢
  split at h
  · next ht => rw [if_pos ht, errorVerdict_stops]; simp [ht]
  next h₁ =>
  rw [if_neg h₁]
  split at h
  · next ht => rw [if_pos ht, authenticateVerdict_stops]; simp [ht]
  next h₂ =>
  rw [if_neg h₂]
  split at h
  · next ht => rw [if_pos ht]; exact iff_of_true trivial (.inl (by simp [ht]))
  next h₃ =>
  rw [if_neg h₃]
  split at h
  · next ht => rw [if_pos ht]; exact iff_of_true (Verdict.stops_ofRead h) (.inl (by simp [ht]))
  next h₄ =>
  rw [if_neg h₄]
  split at h
  · next ht => rw [if_pos ht]; exact iff_of_true (Verdict.stops_ofRead h) (.inl (by simp [ht]))
  next h₅ =>
  rw [if_neg h₅]
  exact iff_of_false id (by simp [h₁, h₂, h₃, h₄, h₅])

end CoinbaseAdapter

variable {conv}

/-- **The messages after which nothing is read.** -/
theorem Exchange.stops_iff {ex : Exchange} {now : Int} {doc : Option Json} (h : ex.verdict conv now doc ≠ .undefined) :
    (ex.verdict conv now doc).Stops ↔ ex.StopsReading doc := by
  cases doc with
  | none => cases ex <;> exact Iff.rfl
  | some data =>
    cases ex with
    | coinbase =>
      simp only [verdict, CoinbaseAdapter.verdict, StopsReading] at h ⊢
      cases hl : data.lookup "type" with
      | none => exact iff_of_false id nofun
      | some v =>
        cases v with
        | string type =>
          rw [hl] at h
          simp only [Option.some.injEq, Json.string.injEq, exists_eq_left']
          exact CoinbaseAdapter.typeVerdict_stops _ h
        | _ => exact iff_of_false id nofun
    | kraken =>
      simp only [verdict, KrakenAdapter.verdict, StopsReading] at h ⊢
      cases hl : data.lookup "event" with
      | none =>
        refine iff_of_false ?_ nofun
        simp only [KrakenAdapter.bookVerdict]
        split
        · split
          · exact Verdict.not_stops_ofRead
          · split
            · exact Verdict.not_stops_ofRead
            · exact id
        · exact id
      | some v =>
        cases v with
        | string event =>
          simp only [Option.some.injEq, Json.string.injEq, exists_eq_right']
          split
          · next he => exact iff_of_true trivial he
          · next he => exact iff_of_false id he
        | _ => exact iff_of_false id (by simp)
    | binance =>
      simp only [verdict, BinanceAdapter.verdict, StopsReading, ← Bool.or_eq_true] at h ⊢
      split
      · next hr => exact iff_of_true trivial hr
      next hr =>
      refine iff_of_false ?_ hr
      split
      · exact Verdict.not_stops_ofRead
      · split
        · exact Verdict.not_stops_ofRead
        · exact id

end CryptoHft
