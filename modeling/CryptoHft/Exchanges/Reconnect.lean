import CryptoHft.Exchanges.Connection

/-!
# Connecting again

`disconnect` stops the context for good, and an adapter that is connected afterwards is served by no thread. So a
connected adapter has its context running throughout a run, and an automatic reconnect restores the subscriptions,
exactly when no connect succeeds once the context was stopped (`run_served_iff`). The automatic reconnect disconnects
first: it is never one that serves.
-/

namespace CryptoHft

open Machine

namespace Connection

variable {D : Type} {conv : Conversions D} {ex : Exchange} {s s' : Adapter D}

/-- The messages written on the connection subscribe to the symbol, and none after that unsubscribes from it. -/
def Requested (ex : Exchange) (written : List Json) (symbol : String) : Prop :=
  ∃ pre symbols post, written = pre ++ ex.subscribeMsg symbols :: post ∧ symbol ∈ symbols ∧
    ∀ symbols', ex.unsubscribeMsg symbols' ∈ post → symbol ∉ symbols'

/-- The step connects after the context was stopped: a connect of an adapter that was disconnected, or the reconnect
after a read error, which disconnects first. -/
def Revives (ex : Exchange) (s : Adapter D) : Event → Prop
  | .connect attempt => s.connected = false ∧ s.iocStopped = true ∧ Succeeds ex attempt
  | .readCompletes (.readError attempt) => Succeeds ex attempt
  | _ => False

/-- If the adapter is connected, its context runs, and on its thread. -/
def Served (s : Adapter D) : Prop := s.connected = true → Runs s

theorem served_of_phase {p : Phase} (h : HasPhase s p) (hp : p ≠ .revived) : Served s := by
  intro hc
  cases p with
  | idle => exact h.2.1
  | live => exact h.2.1
  | stopped => rw [h.1] at hc; cases hc
  | revived => exact absurd rfl hp

theorem not_served_of_revived (h : HasPhase s .revived) : ¬ Served s := by
  intro hs
  have hstop : s.iocStopped = false := (hs h.1).1
  rw [h.2] at hstop
  cases hstop

/-- The step that ends service revives a stopped adapter. -/
theorem revives_of_not_served {p : Phase} {e : Event} (h : HasPhase s p) (hp : p ≠ .revived)
    (hs : step conv ex s e = some s') : (∃ p', HasPhase s' p' ∧ p' ≠ .revived) ∨ Revives ex s e := by
  obtain ⟨p', hp', hn⟩ := step_phase h hs
  cases hn with
  | same => exact .inl ⟨p, hp', hp⟩
  | revives ha => exact .inr ⟨h.1, h.2, ha⟩
  | reconnects ha => exact .inr ha
  | connects | disconnects | readsOn | leaves | stopsReading | loses => exact .inl ⟨_, hp', by simp⟩

theorem not_served_of_revives {p : Phase} {e : Event} (h : HasPhase s p) (hs : step conv ex s e = some s')
    (hr : Revives ex s e) : ¬ Served s' := by
  cases e with
  | connect attempt =>
    obtain ⟨hc, hstop, ha⟩ := hr
    cases hs
    obtain ⟨writes, written, he⟩ := connect_succeeds .user hc ha
    rw [he]
    exact not_served_of_revived ⟨rfl, hstop⟩
  | readCompletes completion =>
    cases completion with
    | readError attempt =>
      obtain ⟨p', hp', hn⟩ := step_phase h hs
      cases hn with
      | same he => exact absurd rfl (he _)
      | reconnects => exact not_served_of_revived hp'
      | loses ha => exact absurd hr ha
    | message => exact hr.elim
  | _ => exact hr.elim

/-- A step keeps service exactly when it does not revive. -/
theorem step_served_iff {e : Event} (hp : ∃ p, HasPhase s p) (hserved : Served s) (hs : step conv ex s e = some s') :
    Served s' ↔ ¬ Revives ex s e := by
  obtain ⟨p, hp⟩ := hp
  have hne : p ≠ .revived := by
    rintro rfl
    exact not_served_of_revived hp hserved
  constructor
  · intro hserved' hr
    exact not_served_of_revives hp hs hr hserved'
  · intro hr
    obtain ⟨p', hp', hne'⟩ := (revives_of_not_served hp hne hs).resolve_right hr
    exact served_of_phase hp' hne'

/-- A reconnect that succeeds revives a stopped adapter. -/
theorem revives_of_readError {p : Phase} {attempt : Attempt} (h : HasPhase s p)
    (hs : step conv ex s (.readCompletes (.readError attempt)) = some s') (hc : s'.connected = true) :
    Revives ex s (.readCompletes (.readError attempt)) := by
  obtain ⟨p', hp', hn⟩ := step_phase h hs
  cases hn with
  | same he => exact absurd rfl (he _)
  | reconnects ha => exact ha
  | loses => rw [hp'.1] at hc; cases hc

/-- **Service.** In a run, every state serves a connected adapter, and every automatic reconnect requests again what was
subscribed, if and only if no step of the run revives a stopped adapter. -/
theorem run_served_iff {es : List Event} (h : Run (step conv ex) Adapter.constructed es s) :
    ((∀ pre post s', es = pre ++ post → Run (step conv ex) Adapter.constructed pre s' → Served s') ∧
        ∀ pre attempt post s₁ s₂, es = pre ++ .readCompletes (.readError attempt) :: post →
          Run (step conv ex) Adapter.constructed pre s₁ →
          step conv ex s₁ (.readCompletes (.readError attempt)) = some s₂ → s₂.connected = true →
          ∀ symbol, Requested ex s₁.written symbol → Requested ex s₂.written symbol) ↔
      Along (step conv ex) (fun s e => ¬ Revives ex s e) Adapter.constructed es := by
  have hserved := h.always_iff_along (J := fun s => ∃ p, HasPhase s p) (P := Served)
    (fun _ _ _ hj hs => step_hasPhase hj hs) (fun _ _ _ hj hp hs => step_served_iff hj hp hs)
    ⟨.idle, constructed_idle⟩ (served_of_phase constructed_idle (by simp))
  constructor
  · rintro ⟨hall, -⟩
    exact hserved.1 hall
  · intro hok
    refine ⟨hserved.2 hok, ?_⟩
    rintro pre attempt post s₁ s₂ rfl hpre hs hc
    obtain ⟨p, hp⟩ := run_phase hpre
    exact absurd (revives_of_readError hp hs hc) (hok pre _ post s₁ rfl hpre)

section Example

/-- A read error that no connect recovers from. -/
theorem lost_connection_served : ∃ s : Adapter ℤ,
    Run (step default .kraken) Adapter.constructed
      [.connect (.opens none), .readCompletes (.readError .resolveFails)] s ∧ Served s := by
  have hrun : ∃ s : Adapter ℤ, Run (step default .kraken) Adapter.constructed
      [.connect (.opens none), .readCompletes (.readError .resolveFails)] s := ⟨_, run_iff_exec.2 rfl⟩
  obtain ⟨s, h⟩ := hrun
  refine ⟨s, h, ((run_served_iff h).2 ?_).1 _ [] s (by simp) h⟩
  exact .cons (fun hr => by cases hr.2.1) fun _ _ => .cons id fun _ _ => .nil

/-- After a read error the adapter connects again, with a stopped context and without its subscription. -/
theorem reconnect_unserved : ∃ s₁ s₂ : Adapter ℤ,
    Run (step default .kraken) Adapter.constructed [.connect (.opens none), .subscribe ["BTC/USD"]] s₁ ∧
      Requested .kraken s₁.written "BTC/USD" ∧
      step default .kraken s₁ (.readCompletes (.readError (.opens none))) = some s₂ ∧
      s₂.connected = true ∧ s₂.iocStopped = true ∧ ¬ Requested .kraken s₂.written "BTC/USD" := by
  refine ⟨_, _, run_iff_exec.2 rfl, ⟨[], ["BTC/USD"], [], rfl, by simp, nofun⟩, rfl, rfl, rfl, ?_⟩
  rintro ⟨pre, symbols, post, he, -⟩
  cases pre <;> cases he

end Example

end Connection

end CryptoHft
