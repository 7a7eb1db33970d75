import Dunning.Proofs.Walk.SingleEntry

/-!
# The step limit

A walk never logs more steps than its limit and one that says so. That one ends the log,
and then nothing is left waiting. All steps before it belong to nodes.
-/
namespace Dunning

/-- The step that ends a log at a limit. -/
structure Step.IsLimit (limit : Nat) (step : Step) : Prop where
  nodeKind : step.nodeKind = none
  action : step.action = .skipped
  detail : step.detail = "Step limit of " ++ toString limit ++ " reached; run truncated"

/-- A log that was ended at a limit. -/
def CutAt (limit : Nat) (log : List Step) : Prop :=
  ∃ before last, log = before ++ [last] ∧ before.length = limit ∧ last.IsLimit limit

theorem CutAt.length_eq {limit : Nat} {log : List Step} (h : CutAt limit log) :
    log.length = limit + 1 := by
  obtain ⟨before, last, rfl, hlength, -⟩ := h
  rw [List.length_append, hlength, List.length_singleton]

namespace WalkState

/-- Nothing changes the limit. -/
theorem steady_maxSteps (j : Journey) (n : Nat) : Steady j fun s => s.maxSteps = n where
  walk agenda s hs := by
    rcases walk_cases j agenda s with ⟨-, hsame⟩ | ⟨-, hall⟩ | ⟨-, made, m, rest, -, hcut, -⟩
    · rw [hsame]
      exact hs
    · rw [hall]
      exact hs
    · rw [hcut]
      exact hs
  remark step s _ hs := by
    rcases record_cases s step with h | h | h <;> rw [h] <;> exact hs
  retime _ _ _ _ _ hs := hs

/-- A state that has kept to a limit. -/
structure WithinLimit (limit : Nat) (s : WalkState) : Prop where
  maxSteps : s.maxSteps = limit
  room : s.truncated = false → s.log.length ≤ limit
  cut : s.truncated = true → CutAt limit s.log ∧ s.pending = []

/-- Up to the first walk nothing is logged, so that any limit is kept. -/
theorem withinLimit_start (runId : String) (limit : Nat) (suspends : Bool) (clock : Instant) :
    WithinLimit limit (.start runId limit suspends clock) :=
  ⟨rfl, fun _ => Nat.zero_le _, fun hcut => by cases hcut⟩

/-- What single moves keep, walks keep. -/
theorem walk_of_perform {j : Journey} {P : WalkState → Prop}
    (single : ∀ m s, P s → P (s.perform j m)) (agenda : List String) {s : WalkState} (hs : P s) :
    P (s.walk j agenda) := by
  rw [walk_eq]
  generalize j.course agenda s.visited = moves
  induction moves generalizing s with
  | nil => exact hs
  | cons m rest ih => exact ih (single m s hs)

/-- A log that is full and within the limit is ended at it. -/
theorem WithinLimit.of_full {limit : Nat} {s : WalkState} (h : WithinLimit limit s)
    (hopen : s.truncated = false) (full : s.maxSteps ≤ s.log.length) (id : String) :
    WithinLimit limit (s.cut id) := by
  have hlength : s.log.length = limit := by
    have hroom := h.room hopen
    have hmax := h.maxSteps
    omega
  have hlimit : (s.limitStep id).IsLimit limit := ⟨rfl, rfl, by rw [← h.maxSteps]; rfl⟩
  refine ⟨h.maxSteps, ?_, fun _ => ⟨⟨s.log, s.limitStep id, rfl, hlength, hlimit⟩, rfl⟩⟩
  intro hcut
  cases hcut

theorem WithinLimit.record {limit : Nat} {s : WalkState} (h : WithinLimit limit s) (step : Step) :
    WithinLimit limit (s.record step) := by
  cases hs : s.truncated with
  | true => rwa [record_of_truncated hs]
  | false =>
    rcases Nat.lt_or_ge s.log.length s.maxSteps with hroom | hfull
    · rw [record_of_room hs hroom]
      refine ⟨h.maxSteps, fun _ => ?_, fun hcut => by cases hs.symm.trans hcut⟩
      have hmax := h.maxSteps
      simp only [List.length_append, List.length_singleton]
      omega
    · rw [record_of_full hs hfull]
      exact h.of_full hs hfull _

/-- Moves log at most one step each. -/
theorem length_grown_singleton (j : Journey) (s : WalkState) (m : Move) :
    (s.grown j [m]).log.length = s.log.length + if m.logs then 1 else 0 := by
  have hlogs := Move.isSome_step? j s m
  cases hstep : m.step? j s <;> rw [hstep] at hlogs <;> simp [grown, hstep, ← hlogs]

/-- Walks keep to their limit. -/
theorem steady_withinLimit (j : Journey) (limit : Nat) : Steady j (WithinLimit limit) where
  walk agenda s hs := by
    refine walk_of_perform (fun m s hs => ?_) agenda hs
    cases hopen : s.truncated with
    | true => rwa [perform_of_truncated j hopen]
    | false =>
      rcases perform_cases j hopen m with ⟨hfull, -, hcut⟩ | ⟨hroom, hgrown⟩
      · rw [hcut]
        exact hs.of_full hopen hfull _
      · rw [hgrown]
        refine ⟨hs.maxSteps, fun _ => ?_, fun hcut => by cases hopen.symm.trans hcut⟩
        have hmax := hs.maxSteps
        have hkept := hs.room hopen
        rw [length_grown_singleton]
        rcases hroom with hroom | hlogs
        · split <;> omega
        · rw [hlogs]
          exact hkept
  remark step s _ hs := hs.record step
  retime pending deferred now s hpending hs := by
    refine ⟨hs.maxSteps, hs.room, fun hcut => ⟨(hs.cut hcut).1, ?_⟩⟩
    have hnone := hpending
    rw [(hs.cut hcut).2] at hnone
    exact List.sublist_nil.1 hnone

/-- A state all of whose steps belong to nodes, but for the last one if it was cut. -/
def Kinded (s : WalkState) : Prop :=
  (∀ step ∈ s.log.dropLast, step.nodeKind.isSome = true) ∧
    (s.truncated = false → ∀ step ∈ s.log, step.nodeKind.isSome = true)

/-- Walks log steps of nodes. -/
theorem carried_kinded (j : Journey) : Carried j Kinded where
  walk agenda s hs := by
    refine walk_of_perform (fun m s hs => ?_) agenda hs
    cases hopen : s.truncated with
    | true => rwa [perform_of_truncated j hopen]
    | false =>
      have hall := hs.2 hopen
      rcases perform_cases j hopen m with ⟨-, -, hcut⟩ | ⟨-, hgrown⟩
      · rw [hcut]
        refine ⟨fun step hstep => hall step ?_, fun h => by cases h⟩
        simpa [cut] using hstep
      · rw [hgrown]
        have hmore : ∀ step ∈ (s.grown j [m]).log, step.nodeKind.isSome = true := by
          intro step hstep
          rcases List.mem_append.1 hstep with hstep | hstep
          · exact hall step hstep
          · obtain ⟨m', -, hm'⟩ := List.mem_filterMap.1 hstep
            exact Move.nodeKind_of_step? hm'
        exact ⟨fun step hstep => hmore step (List.dropLast_subset _ hstep), fun _ => hmore⟩
  retime _ _ _ _ _ hs := hs

end WalkState

end Dunning
