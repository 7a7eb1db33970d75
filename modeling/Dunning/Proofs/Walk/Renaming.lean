import Dunning.Proofs.Walk.Drain
import Dunning.Proofs.Walk.Lockstep

/-!
# Runs that differ in their ids

A walk writes the id of its run on the requests it makes and does nothing else with it.
So the walk of another run that has come as far goes the same way, and asks for the same.
-/
namespace Dunning

/-- The request as another run makes it. -/
def DispatchRequest.renamed (runId : String) (request : DispatchRequest) : DispatchRequest :=
  { request with runId := runId }

theorem Move.requests_renamed (j : Journey) (runId other : String) (m : Move) :
    (m.requests j runId).map (.renamed other) = m.requests j other := by
  cases m with
  | enroll id node e =>
    unfold requests
    cases j.mode <;> rfl
  | _ => rfl

namespace WalkState

/-- The state as another run has it. -/
def renamed (runId : String) (s : WalkState) : WalkState :=
  { s with runId := runId, dispatches := s.dispatches.map (.renamed runId) }

variable (j : Journey) (runId : String)

theorem grown_renamed (m : Move) (s : WalkState) :
    (s.renamed runId).grown j [m] = (s.grown j [m]).renamed runId := by
  have hrequests : [m].flatMap (Move.requests j runId) =
      ([m].flatMap (Move.requests j s.runId)).map (.renamed runId) := by
    simp only [List.flatMap_cons, List.flatMap_nil, List.append_nil, Move.requests_renamed]
  have hsteps : Move.step? j (s.renamed runId) = Move.step? j s := by
    funext m
    cases m <;> rfl
  have hall := congrArg (fun asked => s.dispatches.map (.renamed runId) ++ asked) hrequests
  unfold grown
  rw [hsteps]
  simp only [renamed, List.map_append] at hall ⊢
  rw [← hall]
  rfl

theorem record_renamed (step : Step) (s : WalkState) :
    (s.renamed runId).record step = (s.record step).renamed runId := by
  simp only [record, show (s.renamed runId).truncated = s.truncated from rfl,
    show (s.renamed runId).maxSteps = s.maxSteps from rfl,
    show (s.renamed runId).log = s.log from rfl]
  split_ifs <;> rfl

theorem walk_renamed (agenda : List String) (s : WalkState) :
    (s.renamed runId).walk j agenda = (s.walk j agenda).renamed runId := by
  rw [walk_eq, walk_eq]
  refine performAll_rel j j _ (fun s t => t = s.renamed runId) ?_ ?_ ?_ rfl
  · rintro s _ rfl
    exact ⟨rfl, rfl, rfl⟩
  · rintro s _ id - rfl
    rfl
  · rintro m - s _ - rfl
    exact grown_renamed j runId m s

theorem drain_renamed (s : WalkState) :
    (s.renamed runId).drain j = (s.drain j).renamed runId := by
  fun_induction drain j s with
  | case1 s cut => exact drain_of_truncated j cut
  | case2 s going done => exact drain_of_deferred_nil j (takeEarliest_eq_none done)
  | case3 s going point others found ih =>
    have hnext := walk_renamed j runId ((j.graph.outgoing point.nodeId).map Edge.target)
      { s with deferred := others, now := point.resumeAt }
    have hopen : (s.renamed runId).truncated = false := Bool.eq_false_iff.2 going
    have hfound : takeEarliest (s.renamed runId).deferred = some (point, others) := found
    rw [drain_of_earliest j hopen hfound, ← ih]
    exact congrArg (drain j) hnext

end WalkState

end Dunning
