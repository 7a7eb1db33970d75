import Dunning.Engine.Basic
import Dunning.Walk.Traverse

/-!
# Drafts

A draft is the outcome of a walk before anything is written: the run as it will
be stored, and what is to be asked of others once it is.
-/
namespace Dunning

structure Draft where
  run : Run
  requests : List DispatchRequest
  /-- The points that the run did not have before. -/
  wakeups : List ResumePoint
  deriving DecidableEq

/-- The text of the step that stands for a flow that is not there. -/
def missingFlowText : String := "Flow not found"

/-- The status of a run after its walk. -/
def WalkState.runStatus (s : WalkState) (mode : Mode) : RunStatus :=
  if s.truncated then .truncated
  else if s.pending.isEmpty then mode.completedStatus
  else .waiting

/-- A run is complete as soon as it does not wait. -/
def RunStatus.completion (s : RunStatus) (clock : Instant) : Option Instant :=
  if s.isTerminal then some clock else none

namespace Engine

/-- Whether live runs stop at waits. -/
def suspends (e : Engine) (mode : Mode) : Bool := mode.isLive && e.hasScheduler

/-- Walk a flow from every trigger that matches the event. -/
def walkFlow (e : Engine) (flow : Flow) (event : Event) (mode : Mode) (runId : String)
    (clock : Instant) : WalkState :=
  let start := WalkState.start runId e.settings.maxSteps (e.suspends mode) clock
  let journey : Journey := ⟨.ofFlow flow, event, mode⟩
  let triggers := e.settings.matcher.matching flow event
  let begun :=
    if triggers.isEmpty then
      start.record (start.step flow.id none .skipped
        ("No trigger matches event '" ++ event.eventType ++ "'"))
    else start.walk journey (triggers.map Node.id)
  begun.drain journey

/-- The run of a flow for an event. The event is taken to happen in the flow's organization. -/
def draft (e : Engine) (flow : Flow) (event : Event) (mode : Mode) (source : RunSource)
    (runId : String) (clock : Instant) : Draft :=
  let event := { event with orgId := flow.orgId }
  let s := e.walkFlow flow event mode runId clock
  let status := s.runStatus mode
  { run := {
      id := runId
      flowId := flow.id
      orgId := flow.orgId
      triggeredBy := source
      triggerEvent := event
      status := status
      startedAt := clock
      completedAt := status.completion clock
      log := s.log
      pending := s.pending }
    requests := s.dispatches
    wakeups := s.pending }

end Engine

end Dunning
