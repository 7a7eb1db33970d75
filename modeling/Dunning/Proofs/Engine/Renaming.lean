import Dunning.Proofs.Engine.Draft
import Dunning.Proofs.Walk.Renaming

/-!
# Executions that differ in the ids of their runs

A flow that is executed twice at the same time for the same event is drafted alike, up to
the ids of the runs. If the others answer alike, they are asked for the same.
-/
namespace Dunning

/-- The draft as another run has it. -/
def Draft.renamed (runId : String) (d : Draft) : Draft :=
  { d with run := { d.run with id := runId }, requests := d.requests.map (.renamed runId) }

theorem Engine.begin_renamed (e : Engine) (flow : Flow) (event : Event) (mode : Mode)
    (runId other : String) (clock : Instant) :
    e.begin flow event mode other clock = (e.begin flow event mode runId clock).renamed other := by
  unfold begin
  simp only
  split
  · exact WalkState.record_renamed other _ (.start runId _ _ clock)
  · exact WalkState.walk_renamed _ other _ (.start runId _ _ clock)

/-- A draft has the id that it is given, and depends on it in nothing else. -/
theorem Engine.draft_renamed (e : Engine) (flow : Flow) (event : Event) (mode : Mode)
    (source : RunSource) (runId other : String) (clock : Instant) :
    e.draft flow event mode source other clock =
      (e.draft flow event mode source runId clock).renamed other := by
  have hwalk : e.walkFlow flow { event with orgId := flow.orgId } mode other clock =
      (e.walkFlow flow { event with orgId := flow.orgId } mode runId clock).renamed other := by
    rw [walkFlow_eq, walkFlow_eq, begin_renamed e flow _ mode runId other clock,
      WalkState.drain_renamed]
  simp only [draft, hwalk]
  rfl

/-- A call to the dispatcher or the scheduler, as another run makes it. -/
def Act.call? (runId : String) : Act → Option Act
  | notified _ => none
  | dispatched request fate => some (.dispatched (request.renamed runId) fate)
  | scheduled _ point fate => some (.scheduled runId point fate)

/-- Surroundings that answer one run as others answer another. -/
structure Surroundings.AnswersAs (w' : Surroundings) (other : String) (w : Surroundings)
    (runId : String) : Prop where
  recordRun : ∀ run, run.id = runId →
    (w'.recordRun { run with id := other } = .delivered ↔ w.recordRun run = .delivered)
  dispatch : ∀ request, request.runId = runId →
    w'.dispatch (request.renamed other) = w.dispatch request
  schedule : ∀ point, w'.schedule other point = w.schedule runId point

namespace Engine

variable {w w' : Surroundings} {runId other : String}

theorem dispatchAll_renamed (answers : w'.AnswersAs other w runId) {requests : List DispatchRequest}
    (own : ∀ request ∈ requests, request.runId = runId) :
    (dispatchAll w' (requests.map (.renamed other))).1.filterMap (Act.call? other) =
        (dispatchAll w requests).1.filterMap (Act.call? other) ∧
      (dispatchAll w' (requests.map (.renamed other))).2 = (dispatchAll w requests).2 := by
  induction requests with
  | nil => exact ⟨rfl, rfl⟩
  | cons request rest ih =>
    have hfate := answers.dispatch request (own request List.mem_cons_self)
    have hagain : (request.renamed other).renamed other = request.renamed other := rfl
    obtain ⟨hcalls, hlasted⟩ := ih fun r hr => own r (List.mem_cons_of_mem request hr)
    rw [List.map_cons]
    cases h : w.dispatch request <;>
      simp [dispatchAll, hfate, hagain, h, hcalls, hlasted, Act.call?, DispatchFate.refusal?,
        List.filterMap_cons]

theorem scheduleAll_renamed (answers : w'.AnswersAs other w runId) (points : List ResumePoint) :
    (scheduleAll w' other points).1.filterMap (Act.call? other) =
        (scheduleAll w runId points).1.filterMap (Act.call? other) ∧
      (scheduleAll w' other points).2 = (scheduleAll w runId points).2 := by
  induction points with
  | nil => exact ⟨rfl, rfl⟩
  | cons point rest ih =>
    cases h : w.schedule runId point <;>
      simp [scheduleAll, answers.schedule, h, ih, Act.call?]

theorem sideEffects_renamed (e : Engine) (answers : w'.AnswersAs other w runId) {d : Draft}
    (id_eq : d.run.id = runId) (own : ∀ request ∈ d.requests, request.runId = runId) :
    (e.sideEffects w' (d.renamed other)).1.filterMap (Act.call? other) =
      (e.sideEffects w d).1.filterMap (Act.call? other) := by
  obtain ⟨hsent, hlasted⟩ := dispatchAll_renamed answers own
  have hwoken := (scheduleAll_renamed answers d.wakeups).1
  subst id_eq
  have hrequests : (d.renamed other).requests = d.requests.map (.renamed other) := rfl
  simp only [sideEffects, hrequests, hlasted]
  split
  · rw [List.filterMap_append, List.filterMap_append, hsent]
    exact congrArg _ hwoken
  · exact hsent

/-- Whoever is called when a run is handed off is called alike on behalf of another run. -/
theorem handOff_renamed (e : Engine) (answers : w'.AnswersAs other w runId) {d : Draft}
    (id_eq : d.run.id = runId) (own : ∀ request ∈ d.requests, request.runId = runId)
    (notice notice' : Notice) :
    (e.handOff w' notice' (d.renamed other)).filterMap (fun deed => deed.act.call? other) =
      (e.handOff w notice d).filterMap fun deed => deed.act.call? other := by
  have heffects := sideEffects_renamed e answers id_eq own
  have hfailure : ∀ (lasted : Bool) (notice : Notice),
      (if lasted then [] else [Act.notified notice]).filterMap (Act.call? other) = [] := by
    intro lasted notice
    cases lasted <;> rfl
  have hacts : ∀ (acts : List Act) (flowId : String),
      (acts.map fun act => (⟨flowId, act⟩ : Deed)).filterMap (fun deed => deed.act.call? other) =
        acts.filterMap (Act.call? other) := fun acts flowId => List.filterMap_map ..
  simp only [handOff, hacts]
  rw [List.cons_append, List.cons_append, List.filterMap_cons_none rfl,
    List.filterMap_cons_none rfl, List.filterMap_append, List.filterMap_append, hfailure, hfailure,
    heffects]

end Engine

end Dunning
