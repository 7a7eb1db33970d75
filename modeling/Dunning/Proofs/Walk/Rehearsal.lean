import Dunning.Proofs.Walk.Calls
import Dunning.Proofs.Walk.Outbox

/-!
# Dry walks as rehearsals

A live walk that goes past its waits and a dry walk make the same moves from the same
state, and defer the same. They differ in what they log of an enrollment and in the
request that the live walk makes for it. A dry walk asks for nothing and waits for
nothing, whether it is told to suspend at waits or not.
-/
namespace Dunning

/-- The enrollments that a dry run passes over. -/
def executedSteps (log : List Step) : List Step := log.filter fun step => step.action == .executed

/-- The enrollments of a live log are those that a dry one passes over. -/
theorem enqueuedSteps_foretold {told foretold : List Step}
    (h : List.Forall₂ Step.Foretold told foretold) :
    List.Forall₂ Step.Foretold (enqueuedSteps told) (executedSteps foretold) := by
  induction h with
  | nil => exact .nil
  | @cons live dry _ _ hstep _ ih =>
    unfold enqueuedSteps executedSteps at ih ⊢
    rcases hstep.action with ⟨hlive, hdry⟩ | ⟨hsame, hlive, hdry⟩
    · rw [List.filter_cons_of_pos (by simp [hlive]), List.filter_cons_of_pos (by simp [hdry])]
      exact .cons hstep ih
    · rw [hsame] at hdry
      rw [List.filter_cons_of_neg (by simp [hlive]), List.filter_cons_of_neg (by simp [hdry])]
      exact ih

/-- Of a step a request tells the node only. -/
theorem Requested.of_foretold {j : Journey} {runId : String} {live dry : Step}
    {request : DispatchRequest} (h : Requested j runId live request) (hstep : live.Foretold dry) :
    Requested j runId dry request := by
  have hnode := hstep.nodeId
  exact ⟨h.runId, h.orgId, h.nodeId.trans hnode, h.contactId, h.invoiceId, hnode ▸ h.sequence⟩

/-- Requests that were made for the enrollments of a live log are foretold by a dry one. -/
theorem requested_of_foretold {j : Journey} {runId : String} {live dry : List Step}
    {requests : List DispatchRequest} (hsteps : List.Forall₂ Step.Foretold live dry)
    (h : List.Forall₂ (Requested j runId) live requests) :
    List.Forall₂ (Requested j runId) dry requests := by
  induction hsteps generalizing requests with
  | nil => exact h
  | cons hstep _ ih =>
    cases h with
    | cons hrequest hrest => exact .cons (hrequest.of_foretold hstep) (ih hrest)

namespace WalkState

/-- A live state that goes past its waits, and a dry state, that have come equally far from one
start. -/
structure Rehearses (start live dry : WalkState) : Prop where
  /-- What they logged tells the same, but for enrollments. -/
  log : ∃ told foretold, live.log = start.log ++ told ∧ dry.log = start.log ++ foretold ∧
    List.Forall₂ Step.Foretold told foretold
  /-- Apart from the log and the requests they are one state. -/
  rest : live = { dry with log := live.log, dispatches := live.dispatches }
  passes : dry.suspendWaits = false
  /-- The dry state has asked for nothing. -/
  quiet : dry.dispatches = start.dispatches
  /-- The dry state waits for nothing that the start did not wait for. -/
  idle : dry.pending = start.pending ∨ dry.truncated = true ∧ dry.pending = []

namespace Rehearses

variable {start live dry : WalkState}

theorem self (h : start.suspendWaits = false) : Rehearses start start start where
  log := ⟨[], [], (List.append_nil _).symm, (List.append_nil _).symm, .nil⟩
  rest := rfl
  passes := h
  quiet := rfl
  idle := .inl rfl

theorem truncated (h : Rehearses start live dry) : live.truncated = dry.truncated := by
  simpa using congrArg WalkState.truncated h.rest

theorem visited (h : Rehearses start live dry) : live.visited = dry.visited := by
  simpa using congrArg WalkState.visited h.rest

theorem deferred (h : Rehearses start live dry) : live.deferred = dry.deferred := by
  simpa using congrArg WalkState.deferred h.rest

theorem length_eq (h : Rehearses start live dry) : live.log.length = dry.log.length := by
  obtain ⟨told, foretold, hlive, hdry, hall⟩ := h.log
  rw [hlive, hdry, List.length_append, List.length_append, hall.length_eq]

theorem cut (h : Rehearses start live dry) (id : String) :
    Rehearses start (live.cut id) (dry.cut id) where
  log := by
    obtain ⟨told, foretold, hlive, hdry, hall⟩ := h.log
    refine ⟨told ++ [live.limitStep id], foretold ++ [dry.limitStep id], ?_, ?_, ?_⟩
    · rw [← List.append_assoc, ← hlive]
      rfl
    · rw [← List.append_assoc, ← hdry]
      rfl
    · exact List.rel_append hall
        (.cons (Step.foretold_of_same .skipped (by decide) rfl rfl rfl rfl) .nil)
  rest := by
    rw [h.rest]
    rfl
  passes := h.passes
  quiet := h.quiet
  idle := .inr ⟨rfl, rfl⟩

theorem grown (h : Rehearses start live dry) (g : Graph) (event : Event) {m : Move}
    (fits : m.Fits g) :
    Rehearses start (live.grown ⟨g, event, .live⟩ [m]) (dry.grown ⟨g, event, .dryRun⟩ [m]) where
  log := by
    obtain ⟨told, foretold, hlive, hdry, hall⟩ := h.log
    have hnow : live.now = dry.now := by simpa using congrArg WalkState.now h.rest
    refine ⟨told ++ [m].filterMap (Move.step? ⟨g, event, .live⟩ live),
      foretold ++ [m].filterMap (Move.step? ⟨g, event, .dryRun⟩ dry), ?_, ?_, ?_⟩
    · rw [← List.append_assoc, ← hlive]
      rfl
    · rw [← List.append_assoc, ← hdry]
      rfl
    · rw [Move.filterMap_step?_cons, Move.filterMap_step?_cons, List.filterMap_nil,
        List.filterMap_nil, List.append_nil, List.append_nil]
      exact List.rel_append hall (Alike.foretold_step? g event fits fun _ => hnow)
  rest := by
    rw [h.rest]
    simp [WalkState.grown, suspends, Mode.isLive, h.passes]
  passes := h.passes
  quiet := by
    have hnothing : m.requests ⟨g, event, .dryRun⟩ dry.runId = [] := by cases m <;> rfl
    simp [WalkState.grown, hnothing, h.quiet]
  idle := by
    simpa [WalkState.grown, suspends, Mode.isLive] using h.idle

theorem walk (h : Rehearses start live dry) (g : Graph) (event : Event) (agenda : List String) :
    Rehearses start (live.walk ⟨g, event, .live⟩ agenda) (dry.walk ⟨g, event, .dryRun⟩ agenda) := by
  have hmax : ∀ u v, Rehearses start u v → u.maxSteps = v.maxSteps := fun u v huv => by
    simpa using congrArg WalkState.maxSteps huv.rest
  -- The course is the same in both modes, so that the states are compared move by move.
  rw [walk_eq, walk_eq, h.visited, Journey.course_mode g event .dryRun .live]
  refine performAll_rel _ _ _ (Rehearses start) ?_ ?_ ?_ h
  · exact fun u v huv => ⟨huv.truncated, hmax u v huv, huv.length_eq⟩
  · exact fun u v id _ huv => huv.cut id
  · exact fun m hm u v _ huv => huv.grown g event (Journey.fits_of_mem_course _ _ _ m hm)

theorem parallel (start : WalkState) (g : Graph) (event : Event) :
    Parallel ⟨g, event, .live⟩ ⟨g, event, .dryRun⟩ (Rehearses start) where
  graph := rfl
  walk agenda _ _ h := h.walk g event agenda
  retime deferred now _ _ _ h := by
    refine ⟨h.log, ?_, h.passes, h.quiet, h.idle⟩
    rw [h.rest]
  level _ _ hopen h := ⟨h.truncated ▸ hopen, h.deferred.symm⟩
  behind _ _ hcut h := by
    rw [drain_of_truncated _ (h.truncated ▸ hcut)]
    exact h

end Rehearses

/-- A dry walk does not care whether it is told to suspend. -/
theorem parallel_suspendWaits {j : Journey} (dry : j.mode = .dryRun) (flag : Bool) :
    Parallel j j fun s t => t = { s with suspendWaits := flag } where
  graph := rfl
  walk agenda s t h := by
    subst h
    rw [walk_eq, walk_eq]
    refine performAll_rel j j _ (fun s t => t = { s with suspendWaits := flag }) ?_ ?_ ?_ rfl
    · rintro u _ rfl
      exact ⟨rfl, rfl, rfl⟩
    · rintro u _ id - rfl
      rfl
    · rintro m - u _ - rfl
      have hstep : m.step? j { u with suspendWaits := flag } = m.step? j u := by
        cases m with
        | wait id node w => simp [Move.step?, nodeStep, step, waitDetail, suspends, dry, Mode.isLive]
        | _ => rfl
      simp [grown, suspends, dry, Mode.isLive, List.filterMap_cons, hstep]
  retime deferred now s t _ h := by rw [h]
  level s t hopen h := by
    subst h
    exact ⟨hopen, rfl⟩
  behind s t hcut h := by
    subst h
    rw [drain_of_truncated j (s := { s with suspendWaits := flag }) hcut]

/-- A dry walk and a live walk that goes past its waits, called to do the same from one state. Their
logs agree step by step, but that the dry one passes over the enrollments which the live one asks
for, in the same order. They visit the same nodes and are cut together. The dry walk asks for
nothing, waits for nothing new, and comes to the same when it is told to suspend. -/
theorem dry_rehearses_live (g : Graph) (event : Event) (calls : List WalkCall) (s : WalkState) :
    let start := { s with suspendWaits := false }
    let live := start.callAll ⟨g, event, .live⟩ calls
    let dry := start.callAll ⟨g, event, .dryRun⟩ calls
    (∃ told foretold asked, live.log = s.log ++ told ∧ dry.log = s.log ++ foretold ∧
      List.Forall₂ Step.Foretold told foretold ∧ live.dispatches = s.dispatches ++ asked ∧
      List.Forall₂ (Requested ⟨g, event, .live⟩ s.runId) (executedSteps foretold) asked) ∧
    live.visited = dry.visited ∧ live.truncated = dry.truncated ∧
    dry.dispatches = s.dispatches ∧
    (dry.pending = s.pending ∨ dry.truncated = true ∧ dry.pending = []) ∧
    ∀ flag, { s with suspendWaits := flag }.callAll ⟨g, event, .dryRun⟩ calls =
      { dry with suspendWaits := flag } := by
  intro start live dry
  have h : Rehearses start live dry :=
    (Rehearses.parallel start g event).callAll calls (.self rfl)
  obtain ⟨told, foretold, hlive, hdry, hall⟩ := h.log
  obtain ⟨-, added, asked, hadded, hasked, hrequested⟩ :=
    (steady_extends ⟨g, event, .live⟩ start.runId start.log start.dispatches).callAll calls
      (Extends.self ⟨g, event, .live⟩ start)
  have htold : added = told := List.append_cancel_left (hadded.symm.trans hlive)
  rw [htold] at hrequested
  refine ⟨⟨told, foretold, asked, hlive, hdry, hall, hasked,
    requested_of_foretold (enqueuedSteps_foretold hall) hrequested⟩,
    h.visited, h.truncated, h.quiet, h.idle, fun flag => ?_⟩
  exact (parallel_suspendWaits rfl flag).callAll calls (s := start) rfl

end WalkState

end Dunning
