import Dunning.Engine.Draft

/-!
# Handing off

Once a run is written, its enrollments are dispatched and its wake-ups are
scheduled, in this order. A refusal is reported and the next request follows. If
a collaborator breaks down, the rest is left undone and the run stays as it is.
-/
namespace Dunning

namespace Engine

/-- Dispatch requests in order: what was done, and whether the dispatcher lasted. -/
def dispatchAll (w : Surroundings) : List DispatchRequest → List Act × Bool
  | [] => ([], true)
  | request :: rest =>
      let fate := w.dispatch request
      match fate with
      | .crashed => ([.dispatched request fate], false)
      | _ =>
          let report := fate.refusal?.map fun text =>
            Act.notified (.dispatchFailed request.runId request.nodeId text)
          let (acts, lasted) := dispatchAll w rest
          (.dispatched request fate :: report.toList ++ acts, lasted)

/-- Schedule wake-ups in order. A failure is passed over. -/
def scheduleAll (w : Surroundings) (runId : String) : List ResumePoint → List Act × Bool
  | [] => ([], true)
  | point :: rest =>
      let fate := w.schedule runId point
      match fate with
      | .crashed => ([.scheduled runId point fate], false)
      | _ =>
          let (acts, lasted) := scheduleAll w runId rest
          (.scheduled runId point fate :: acts, lasted)

/-- Dispatch and schedule what a written draft asks for. -/
def sideEffects (e : Engine) (w : Surroundings) (d : Draft) : List Act × Bool :=
  let (sent, lasted) := dispatchAll w d.requests
  if lasted && e.hasScheduler then
    let (woken, lasted) := scheduleAll w d.run.id d.wakeups
    (sent ++ woken, lasted)
  else (sent, lasted)

/-- Report a written draft and hand it off. -/
def handOff (e : Engine) (w : Surroundings) (notice : Notice) (d : Draft) : List Deed :=
  let (acts, lasted) := e.sideEffects w d
  let failure :=
    if lasted then []
    else [Act.notified (.flowFailed d.run.flowId d.run.orgId
      ("side effects of run " ++ d.run.id ++ " failed"))]
  (.notified notice :: acts ++ failure).map fun act => ⟨d.run.flowId, act⟩

end Engine

end Dunning
