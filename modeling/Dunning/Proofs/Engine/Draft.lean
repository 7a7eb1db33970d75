import Dunning.Engine.Resume
import Dunning.Engine.Execute
import Dunning.Proofs.Walk.Outbox
import Mathlib

-- Runs on fixed inputs are evaluated with equations of core that only the whole library holds.

/-!
# What a draft adds to a run

The walk of an execution starts from nothing, and that of a resumption from the log of
the run. Both are rows of walks, so that whatever walks keep holds at their end: the
log is extended, no node is entered twice, and there is a request for every enrollment
added.
-/
namespace Dunning

/-- A run is continued when it waits and some of its points are due. -/
theorem Run.continuation_eq_some_iff {run : Run} {now : Instant} {c : Continuation} :
    run.continuation now = .ok (some c) ↔ run.status = .waiting ∧
      (∃ p ∈ run.pending, p.resumeAt.le now = true) ∧
      c = { run := run
            due := (run.pending.filter fun p => p.resumeAt.le now).mergeSort
              fun p q => p.resumeAt.le q.resumeAt
            later := run.pending.filter fun p => !p.resumeAt.le now } := by
  simp only [continuation, List.isEmpty_iff, List.filter_eq_nil_iff]
  constructor
  · intro h
    split at h
    · cases h
    · rename_i hwaiting
      split at h
      · cases h
      · rename_i hdue
        refine ⟨not_not.1 hwaiting, ?_, (Option.some.inj (Except.ok.inj h)).symm⟩
        simpa using hdue
  · rintro ⟨hwaiting, ⟨p, hp, hdue⟩, rfl⟩
    rw [if_neg (not_not.2 hwaiting), if_neg fun h => h p hp hdue]

/-- A run that cannot be continued does not wait. -/
theorem Run.not_waiting_of_continuation {run : Run} {now : Instant} {problem : EngineProblem}
    (h : run.continuation now = .error problem) : run.status ≠ .waiting := by
  intro hwaiting
  simp only [continuation, hwaiting, ne_eq, not_true_eq_false, if_false] at h
  split at h <;> cases h

/-- A run that cannot be continued yet has no point that is due. -/
theorem Run.not_due_of_continuation {run : Run} {now : Instant}
    (h : run.continuation now = .ok none) : ∀ p ∈ run.pending, ¬p.resumeAt.le now = true := by
  simp only [continuation, List.isEmpty_iff, List.filter_eq_nil_iff] at h
  split at h
  · cases h
  · split at h
    · rename_i hnone
      exact hnone
    · cases h

/-- The due points are those of the run whose time has come. -/
theorem Run.mem_due_iff {run : Run} {now : Instant} {c : Continuation}
    (h : run.continuation now = .ok (some c)) {p : ResumePoint} :
    p ∈ c.due ↔ p ∈ run.pending ∧ p.resumeAt.le now = true := by
  obtain ⟨-, -, rfl⟩ := continuation_eq_some_iff.1 h
  exact List.mem_mergeSort.trans List.mem_filter

/-- What is left is a part of what was pending. -/
theorem Run.later_sublist {run : Run} {now : Instant} {c : Continuation}
    (h : run.continuation now = .ok (some c)) : c.later.Sublist run.pending := by
  obtain ⟨-, -, rfl⟩ := continuation_eq_some_iff.1 h
  exact List.filter_sublist

namespace Continuation

/-- What stays the same while a run goes on. Without its flow there is no graph to walk. -/
def journey (c : Continuation) (flow : Option Flow) : Journey :=
  ⟨(flow.map Graph.ofFlow).getD default, c.run.triggerEvent, .live⟩

@[simp] theorem start_log (c : Continuation) (e : Engine) (now clock : Instant) :
    (c.start e now clock).log = c.run.log := rfl

theorem accounted_start (c : Continuation) (e : Engine) (now clock : Instant) :
    (c.start e now clock).Accounted := fun _ _ => Iff.rfl

end Continuation

/-- An engine with a scheduler that numbers its runs. -/
def Engine.numbered : Engine := ⟨.standard, true, fun n => "run" ++ toString n⟩

/-- A number of hours after the epoch. -/
def Instant.hour (n : Nat) : Instant := (Instant.epoch.addHours n).getD .epoch

/-- The walk of a flow up to its waits. -/
def Engine.begin (e : Engine) (flow : Flow) (event : Event) (mode : Mode) (runId : String)
    (clock : Instant) : WalkState :=
  let start := WalkState.start runId e.settings.maxSteps (e.suspends mode) clock
  let triggers := e.settings.matcher.matching flow event
  if triggers.isEmpty then
    start.record (start.step flow.id none .skipped
      ("No trigger matches event '" ++ event.eventType ++ "'"))
  else start.walk ⟨.ofFlow flow, event, mode⟩ (triggers.map Node.id)

/-- An executed flow goes on behind the waits that were met. -/
theorem Engine.walkFlow_eq (e : Engine) (flow : Flow) (event : Event) (mode : Mode) (runId : String)
    (clock : Instant) : e.walkFlow flow event mode runId clock =
      (e.begin flow event mode runId clock).drain ⟨.ofFlow flow, event, mode⟩ := rfl

namespace WalkState

/-- The status of a cut tells of a cut. -/
theorem runStatus_eq_truncated_iff {s : WalkState} {mode : Mode} :
    s.runStatus mode = .truncated ↔ s.truncated = true := by
  rw [runStatus]
  cases s.truncated <;> cases s.pending <;> cases mode <;> simp [Mode.completedStatus]

theorem truncated_of_runStatus {s : WalkState} {mode : Mode} (h : s.runStatus mode ≠ .truncated) :
    s.truncated = false := Bool.eq_false_iff.2 (mt runStatus_eq_truncated_iff.2 h)

/-- What walks keep holds of a continued state if it holds of the state from which it goes on. -/
theorem Steady.continuation {c : Continuation} {flow : Option Flow} {P : WalkState → Prop}
    (h : Steady (c.journey flow) P) {e : Engine} {now clock : Instant}
    (hs : P (c.start e now clock)) :
    P (c.walk e flow now clock) := by
  cases flow with
  | none => exact h.remark _ _ ⟨rfl, rfl⟩ (h.retime [] _ _ _ (List.nil_sublist _) hs)
  | some flow => exact h.drain (h.foldl_walkDownstream c.due hs)

/-- What walks keep holds behind the triggers if it holds of the empty state. -/
theorem Steady.begin {flow : Flow} {event : Event} {mode : Mode} {P : WalkState → Prop}
    (h : Steady ⟨.ofFlow flow, event, mode⟩ P) {e : Engine} {runId : String} {clock : Instant}
    (hs : P (.start runId e.settings.maxSteps (e.suspends mode) clock)) :
    P (e.begin flow event mode runId clock) := by
  simp only [Engine.begin]
  split
  · exact h.remark _ _ ⟨rfl, rfl⟩ hs
  · exact h.walk _ _ hs

/-- What walks keep holds of an executed flow if it holds of the empty state. -/
theorem Steady.walkFlow {flow : Flow} {event : Event} {mode : Mode} {P : WalkState → Prop}
    (h : Steady ⟨.ofFlow flow, event, mode⟩ P) {e : Engine} {runId : String} {clock : Instant}
    (hs : P (.start runId e.settings.maxSteps (e.suspends mode) clock)) :
    P (e.walkFlow flow event mode runId clock) := h.drain (h.begin hs)

end WalkState

open WalkState

/-- A draft that extends a log by entering nodes once, and asks for every enrollment added. -/
structure Draft.Extends (d : Draft) (log : List Step) : Prop where
  grows : log <+: d.run.log
  once : EnteredOnce d.run.log
  runId : ∀ request ∈ d.requests, request.runId = d.run.id
  requests : ∀ id, entries .enqueued id d.run.log =
    entries .enqueued id log + (d.requests.map DispatchRequest.nodeId).count id

/-- The count of requests for a node, as the outbox of a walk tells it. -/
theorem Draft.extends_of_outbox {d : Draft} {j : Journey} {log : List Step} {s : WalkState}
    (hlog : d.run.log = s.log) (hout : d.requests = s.dispatches) (once : EnteredOnce s.log)
    (hs : WalkState.Extends j d.run.id log [] s) : d.Extends log := by
  obtain ⟨-, added, asked, hadded, hasked, hall⟩ := hs
  rw [List.nil_append] at hasked
  obtain ⟨hnodes, hruns⟩ := Requested.of_forall₂ hall
  refine ⟨?_, hlog ▸ once, ?_, ?_⟩
  · rw [hlog, hadded]
    exact List.prefix_append _ _
  · rwa [hout, hasked]
  · intro id
    rw [hlog, hadded, hout, hasked, hnodes, entries_enqueued, entries_enqueued,
      enqueuedSteps_append, List.map_append, List.count_append]

/-- A resumption extends the log that it read. -/
theorem Continuation.draft_extends {c : Continuation} (once : EnteredOnce c.run.log) (e : Engine)
    (flow : Option Flow) (now clock : Instant) : (c.draft e flow now clock).Extends c.run.log := by
  have hstart : (c.start e now clock).Accounted ∧ EnteredOnce (c.start e now clock).log :=
    ⟨c.accounted_start e now clock, once⟩
  have honce := (steady_enteredOnce (c.journey flow)).continuation hstart
  have hout := (steady_extends (c.journey flow) c.run.id c.run.log []).continuation
    (Extends.self (c.journey flow) (c.start e now clock))
  exact Draft.extends_of_outbox rfl rfl honce.2 hout

/-- An execution extends the empty log. -/
theorem Engine.draft_extends (e : Engine) (flow : Flow) (event : Event) (mode : Mode)
    (source : RunSource) (runId : String) (clock : Instant) :
    (e.draft flow event mode source runId clock).Extends [] := by
  let start := WalkState.start runId e.settings.maxSteps (e.suspends mode) clock
  let j : Journey := ⟨.ofFlow flow, { event with orgId := flow.orgId }, mode⟩
  have hstart : start.Accounted ∧ EnteredOnce start.log := ⟨fun _ _ => Iff.rfl, .nil⟩
  have honce := (steady_enteredOnce j).walkFlow hstart
  have hout := (steady_extends j runId [] []).walkFlow (Extends.self j start)
  exact Draft.extends_of_outbox rfl rfl honce.2 hout

end Dunning
