import Dunning.Proofs.Engine.Draft
import Dunning.Proofs.Walk.Drain
import Dunning.Proofs.Walk.Limit
import Dunning.Proofs.Walk.Waits

/-!
# Coherent runs

The fields of a run agree with each other: the status tells whether the run waits, whether
it has an end and whether its log was cut, and steps that belong to no node only end a
log. Every draft is coherent, that of a resumption because the run is that it continues.
-/
namespace Dunning

open WalkState

/-- A run whose fields agree, under a step limit. -/
structure Run.Coherent (limit : Nat) (run : Run) : Prop where
  waiting : run.status = .waiting ↔ run.pending ≠ []
  completed : run.completedAt.isSome = true ↔ run.status ≠ .waiting
  truncated : run.status = .truncated ↔ run.log.length = limit + 1
  cut : run.status = .truncated → CutAt limit run.log
  length : run.log.length ≤ limit + 1
  kinded : ∀ step ∈ run.log.dropLast, step.nodeKind.isSome = true
  open_kinded : run.status = .waiting → ∀ step ∈ run.log, step.nodeKind.isSome = true

/-- The event of a run has no say in whether it is coherent. -/
theorem Run.Coherent.of_event {limit : Nat} {run : Run} {event : Event} (h : run.Coherent limit) :
    Run.Coherent limit { run with triggerEvent := event } :=
  ⟨h.waiting, h.completed, h.truncated, h.cut, h.length, h.kinded, h.open_kinded⟩

namespace WalkState

/-- A walk that is over: it has kept to its limit, and only the last step may belong to no node, if
nothing is pending. -/
structure Ended (limit : Nat) (s : WalkState) : Prop where
  within : WithinLimit limit s
  kinded : ∀ step ∈ s.log.dropLast, step.nodeKind.isSome = true
  open_kinded : s.pending ≠ [] → ∀ step ∈ s.log, step.nodeKind.isSome = true

theorem Ended.of_kinded {limit : Nat} {s : WalkState} (within : WithinLimit limit s)
    (kinded : Kinded s) : Ended limit s := by
  refine ⟨within, kinded.1, fun hpending => kinded.2 ?_⟩
  cases hs : s.truncated with
  | false => rfl
  | true => exact absurd (within.cut hs).2 hpending

/-- A remark ends a walk of which nothing is pending. -/
theorem Ended.remark {limit : Nat} {s : WalkState} (within : WithinLimit limit s)
    (kinded : Kinded s) (hopen : s.truncated = false) (nothing : s.pending = []) (step : Step) :
    Ended limit (s.record step) := by
  have hall := kinded.2 hopen
  refine ⟨within.record step, ?_, fun hpending => absurd ?_ hpending⟩
  · rcases record_cases s step with h | h | h <;> rw [h]
    · exact kinded.1
    · simpa [cut] using hall
    · simpa using hall
  · rcases record_cases s step with h | h | h <;> rw [h]
    · exact nothing
    · rfl
    · exact nothing

/-- A status says of a walk whether it was cut and whether anything is pending. -/
theorem Ended.coherent {limit : Nat} {s : WalkState} (h : Ended limit s) {run : Run} {mode : Mode}
    {clock : Instant} (status : run.status = s.runStatus mode)
    (completedAt : run.completedAt = run.status.completion clock) (log : run.log = s.log)
    (pending : run.pending = s.pending) : run.Coherent limit := by
  have hcompleted : run.completedAt.isSome = true ↔ run.status ≠ .waiting := by
    rw [completedAt]
    cases run.status <;> simp [RunStatus.completion, RunStatus.isTerminal]
  have hwaits : run.status = .waiting ↔ s.truncated = false ∧ s.pending ≠ [] := by
    rw [status, runStatus]
    cases s.truncated <;> cases s.pending <;> cases mode <;> simp [Mode.completedStatus]
  have htruncated : run.status = .truncated ↔ s.truncated = true := by
    rw [status, runStatus_eq_truncated_iff]
  have hwithin := h.within
  constructor
  · rw [hwaits, pending]
    refine and_iff_right_of_imp fun hpending => ?_
    cases hs : s.truncated with
    | false => rfl
    | true => exact absurd (hwithin.cut hs).2 hpending
  · exact hcompleted
  · rw [htruncated, log]
    cases hs : s.truncated with
    | false =>
      have hroom := hwithin.room hs
      simp only [Bool.false_eq_true, false_iff]
      omega
    | true => simp [(hwithin.cut hs).1.length_eq]
  · intro hcut
    rw [log]
    exact (hwithin.cut (htruncated.1 hcut)).1
  · rw [log]
    cases hs : s.truncated with
    | false => exact Nat.le_succ_of_le (hwithin.room hs)
    | true => exact (hwithin.cut hs).1.length_eq.le
  · rw [log]
    exact h.kinded
  · intro hwaiting
    rw [log]
    exact h.open_kinded (hwaits.1 hwaiting).2

end WalkState

variable {limit : Nat}

/-- If no trigger matches, the walk of an execution is a remark. -/
theorem Engine.walkFlow_of_unmatched (e : Engine) {flow : Flow} {event : Event}
    (unmatched : (e.settings.matcher.matching flow event).isEmpty = true) (mode : Mode)
    (runId : String) (clock : Instant) :
    e.walkFlow flow event mode runId clock =
      (WalkState.start runId e.settings.maxSteps (e.suspends mode) clock).record
        ⟨flow.id, none, .skipped, "No trigger matches event '" ++ event.eventType ++ "'", clock⟩ := by
  let start := WalkState.start runId e.settings.maxSteps (e.suspends mode) clock
  have hdeferred : ∀ remark, (start.record remark).deferred = [] := by
    intro remark
    rcases record_cases start remark with h | h | h <;> rw [h] <;> rfl
  rw [Engine.walkFlow_eq, Engine.begin, if_pos unmatched]
  exact drain_of_deferred_nil _ (hdeferred _)

/-- The walk of an execution ends well, also when no trigger matches. -/
theorem Engine.ended_walkFlow {e : Engine} (maxSteps : e.settings.maxSteps = limit) (flow : Flow)
    (event : Event) (mode : Mode) (runId : String) (clock : Instant) :
    Ended limit (e.walkFlow flow event mode runId clock) := by
  let start := WalkState.start runId e.settings.maxSteps (e.suspends mode) clock
  let j : Journey := ⟨.ofFlow flow, event, mode⟩
  have hwithin : WithinLimit limit start := maxSteps ▸ withinLimit_start ..
  have hkinded : Kinded start := ⟨by simp [start, WalkState.start], by simp [start, WalkState.start]⟩
  by_cases hnone : (e.settings.matcher.matching flow event).isEmpty = true
  · rw [e.walkFlow_of_unmatched hnone]
    exact .remark hwithin hkinded rfl rfl _
  · refine .of_kinded ((steady_withinLimit j limit).walkFlow hwithin) ?_
    rw [Engine.walkFlow_eq, Engine.begin, if_neg hnone]
    exact (carried_kinded j).drain ((carried_kinded j).walk _ _ hkinded)

/-- Executions make coherent runs. -/
theorem Engine.coherent_draft {e : Engine} (maxSteps : e.settings.maxSteps = limit) (flow : Flow)
    (event : Event) (mode : Mode) (source : RunSource) (runId : String) (clock : Instant) :
    (e.draft flow event mode source runId clock).run.Coherent limit :=
  (Engine.ended_walkFlow maxSteps flow { event with orgId := flow.orgId } mode runId clock).coherent
    rfl rfl rfl rfl

/-- A coherent run that waits has room to be continued. -/
theorem Continuation.withinLimit_start {c : Continuation} (coherent : c.run.Coherent limit)
    (status : c.run.status = .waiting) {e : Engine} (maxSteps : e.settings.maxSteps = limit)
    (now clock : Instant) : WithinLimit limit (c.start e now clock) := by
  have hlength : c.run.log.length ≤ limit := by
    have hnot : c.run.status ≠ .truncated := by rw [status]; decide
    have hcut := mt coherent.truncated.2 hnot
    have hlog := coherent.length
    omega
  exact ⟨maxSteps, fun _ => hlength, fun hcut => by cases hcut⟩

/-- A coherent run that waits is continued to a coherent run. -/
theorem Continuation.coherent_draft {c : Continuation} (coherent : c.run.Coherent limit)
    (status : c.run.status = .waiting) {e : Engine} (maxSteps : e.settings.maxSteps = limit)
    (flow : Option Flow) (now clock : Instant) :
    (c.draft e flow now clock).run.Coherent limit := by
  have hwithin := withinLimit_start coherent status maxSteps now clock
  have hkinded : Kinded (c.start e now clock) := by
    have hall := coherent.open_kinded status
    exact ⟨fun step hstep => hall step (List.dropLast_subset _ hstep), fun _ => hall⟩
  have hended : Ended limit (c.walk e flow now clock) := by
    cases flow with
    | none =>
      let closing := { c.start e now clock with pending := [] }
      have hclosing : WithinLimit limit closing :=
        (steady_withinLimit (c.journey none) limit).retime [] _ _ _ (List.nil_sublist _) hwithin
      exact .remark hclosing hkinded rfl rfl _
    | some flow =>
      let j := c.journey (some flow)
      refine .of_kinded ((steady_withinLimit j limit).continuation hwithin) ?_
      exact (carried_kinded j).drain ((carried_kinded j).foldl_walkDownstream c.due hkinded)
  exact hended.coherent rfl rfl rfl rfl

/-- A dry run waits for nothing and enrolls nobody. -/
theorem Engine.draft_dryRun (e : Engine) (flow : Flow) (event : Event) (source : RunSource)
    (runId : String) (clock : Instant) :
    (e.draft flow event .dryRun source runId clock).run.pending = [] ∧
      enqueuedSteps (e.draft flow event .dryRun source runId clock).run.log = [] := by
  let s := e.walkFlow flow { event with orgId := flow.orgId } .dryRun runId clock
  have hpending : s.suspends .dryRun = false ∧ s.pending = [] :=
    (steady_passing _).walkFlow ⟨rfl, rfl⟩
  have hlog : enqueuedSteps s.log = [] := (steady_dry rfl).walkFlow rfl
  exact ⟨hpending.2, hlog⟩

end Dunning
