import CryptoHft.Exchanges.Connection

/-!
# The read loop of the adapters

After every completion a connected adapter should have exactly one read outstanding. It has one exactly when the message
was not one that `on_message` answers by returning (`completes_reads_iff`); so it has one throughout a run exactly when
the run receives no such message (`run_reads_iff`).
-/

namespace CryptoHft

open Machine

namespace Connection

variable {D : Type} {conv : Conversions D} {ex : Exchange} {s s' : Adapter D}

theorem afterHandler_reads (s : Adapter D) :
    (afterHandler s).reads = s.reads ∧ (afterHandler s).connected = s.connected := by
  unfold afterHandler
  split <;> exact ⟨rfl, rfl⟩

/-- One completion. -/
theorem completes_reads_iff {p : Phase} {completion : Completion} (h : HasPhase s p)
    (hs : step conv ex s (.readCompletes completion) = some s') :
    (s'.connected = true → s'.reads = 1) ↔ ∀ now doc, completion = .message now doc → ¬ ex.StopsReading doc := by
  obtain ⟨hr, hpos, s₁, hm, rfl⟩ := completes_eq hs
  cases reading_of_completes h hr hpos
  have hread : HasPhase { s with reads := s.reads - 1 } (.live false) := ⟨h.1, h.2.1, by simp [h.2.2]⟩
  rw [(afterHandler_reads s₁).1, (afterHandler_reads s₁).2]
  cases completion with
  | readError attempt => exact iff_of_true (readError_phase hread hm).2 nofun
  | message now doc =>
    obtain ⟨p', hp, hn⟩ := message_phase hread hm
    cases hn with
    | same he => exact absurd rfl (he _)
    | readsOn hd => exact iff_of_true (fun _ => hp.2.2) fun _ _ he => by cases he; exact hd
    | leaves hd => exact iff_of_true (fun hc => by rw [hp.1] at hc; cases hc) fun _ _ he => by cases he; exact hd
    | stopsReading hd =>
      refine iff_of_false (fun h1 => ?_) fun h' => h' now doc rfl hd
      have hreads : s₁.reads = 1 := h1 hp.1
      rw [hp.2.2] at hreads
      cases hreads

/-- **The read loop.** In a run, every return of `on_message` leaves a connected adapter with exactly one read
outstanding if and only if no message of the run is one that the adapter answers by returning. -/
theorem run_reads_iff {es : List Event} (h : Run (step conv ex) Adapter.constructed es s) :
    (∀ pre completion post s', es = pre ++ .readCompletes completion :: post →
        Run (step conv ex) Adapter.constructed (pre ++ [.readCompletes completion]) s' →
        s'.connected = true → s'.reads = 1) ↔
      ∀ now doc, .readCompletes (.message now doc) ∈ es → ¬ ex.StopsReading doc := by
  constructor
  · intro hreads now doc hm
    obtain ⟨pre, post, rfl⟩ := List.append_of_mem hm
    obtain ⟨s₁, hpre, hrest⟩ := h.split
    cases hrest with
    | cons hs hpost =>
      obtain ⟨p, hp⟩ := run_phase hpre
      have hone := hreads pre _ post _ rfl (hpre.append (.single hs))
      exact (completes_reads_iff hp hs).1 hone now doc rfl
  · rintro hno pre completion post s' rfl hr hc
    obtain ⟨s₁, hpre, hs⟩ := hr.split_last
    obtain ⟨p, hp⟩ := run_phase hpre
    refine (completes_reads_iff hp hs).2 (fun now doc he => ?_) hc
    cases he
    exact hno now doc (List.mem_append_right _ List.mem_cons_self)

section Example

/-- The confirmation of a subscription. -/
def confirmation : Json := .object [("type", .string "subscriptions")]

def heartbeat : Json := .object [("type", .string "heartbeat")]

theorem heartbeat_reads : ∃ s' : Adapter ℤ,
    Run (step default .coinbase) Adapter.constructed
      [.connect (.opens (some "jwt")), .readCompletes (.message 0 (some heartbeat))] s' ∧
      s'.connected = true ∧ s'.reads = 1 := by
  have hrun : ∃ s' : Adapter ℤ, Run (step default .coinbase) Adapter.constructed
      [.connect (.opens (some "jwt")), .readCompletes (.message 0 (some heartbeat))] s' ∧ s'.connected = true :=
    ⟨_, run_iff_exec.2 rfl, rfl⟩
  obtain ⟨s', h, hc⟩ := hrun
  refine ⟨s', h, hc, (run_reads_iff h).2 (fun now doc hm => ?_) [.connect (.opens (some "jwt"))] _ [] s' rfl h hc⟩
  simp only [List.mem_cons, reduceCtorEq, Event.readCompletes.injEq, Completion.message.injEq, List.not_mem_nil,
    or_false, false_or] at hm
  obtain ⟨-, rfl⟩ := hm
  simp [Exchange.StopsReading, heartbeat, Json.lookup, List.lookup_cons]

/-- The confirmation of a subscription leaves Coinbase connected and reading no more. -/
theorem confirmation_stops_reading : ∃ s : Adapter ℤ,
    Run (step default .coinbase) Adapter.constructed
      [.connect (.opens (some "jwt")), .subscribe ["BTC-USD"], .readCompletes (.message 0 (some confirmation))] s ∧
      s.connected = true ∧ s.reads = 0 :=
  ⟨_, run_iff_exec.2 rfl, rfl, rfl⟩

end Example

end Connection

end CryptoHft
