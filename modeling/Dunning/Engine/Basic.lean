import Dunning.Run.Request
import Dunning.Store.Basic

/-!
# The engine and its surroundings

The engine walks flows, writes runs to a store, and then asks a dispatcher for
enrollments and a scheduler for wake-ups. How the others answer is told from
outside. An operation comes to an answer, a new store, and the list of all that
was done in between.
-/
namespace Dunning

/-- The settings, whether there is a scheduler, and how the runs are named. -/
structure Engine where
  settings : Settings
  hasScheduler : Bool
  /-- The id of the n-th run, counted from one. -/
  runId : Nat → String

/-- Why an operation has no result. -/
inductive EngineProblem where
  | store (problem : StoreProblem)
  | runNotWaiting (runId : String) (status : RunStatus)
  /-- The task broke down. -/
  | crashed
  deriving DecidableEq

namespace EngineProblem

def message : EngineProblem → String
  | store problem => "storage error: " ++ problem.message
  | runNotWaiting id status => "run '" ++ id ++ "' is " ++ status.name ++ " and cannot be resumed"
  | crashed => "flow task failed"

end EngineProblem

/-- How a new run fares before the store sees it. -/
inductive RecordFate where
  | delivered
  | refused (problem : StoreProblem)
  | crashed
  deriving DecidableEq

/-- What a dispatcher does with a request. -/
inductive DispatchFate where
  | accepted
  | rejected (reason : String)
  | unavailable (reason : String)
  | crashed
  deriving DecidableEq, Repr

namespace DispatchFate

/-- The report of a request that was refused. -/
def refusal? : DispatchFate → Option String
  | rejected reason => some ("dispatch rejected: " ++ reason)
  | unavailable reason => some ("dispatcher unavailable: " ++ reason)
  | accepted => none
  | crashed => none

end DispatchFate

/-- What a scheduler does with a wake-up. -/
inductive ScheduleFate where
  | accepted
  | failed
  | crashed
  deriving DecidableEq, Repr

/-- How the others answer the engine. A store call with a problem does not reach the store. -/
structure Surroundings where
  getFlow : (orgId flowId : String) → Option StoreProblem
  activeFlows : (orgId : String) → Option StoreProblem
  recordRun : Run → RecordFate
  getRun : (runId : String) → Option StoreProblem
  updateRun : Run → Option StoreProblem
  dispatch : DispatchRequest → DispatchFate
  schedule : (runId : String) → ResumePoint → ScheduleFate

/-- Everyone does as asked. -/
def Surroundings.calm : Surroundings where
  getFlow _ _ := none
  activeFlows _ := none
  recordRun _ := .delivered
  getRun _ := none
  updateRun _ := none
  dispatch _ := .accepted
  schedule _ _ := .accepted

/-- A call that reached someone outside, with its fate. -/
inductive Act where
  | notified (notice : Notice)
  | dispatched (request : DispatchRequest) (fate : DispatchFate)
  | scheduled (runId : String) (point : ResumePoint) (fate : ScheduleFate)
  deriving DecidableEq

/-- An act on behalf of a flow. -/
structure Deed where
  flowId : String
  act : Act
  deriving DecidableEq

/-- The store, and how many runs have been named. -/
structure Records (σ : Type) where
  store : σ
  named : Nat

/-- What an operation comes to. -/
structure Outcome (σ α : Type) where
  answer : Except EngineProblem α
  records : Records σ
  deeds : List Deed

namespace Records

/-- No flows, no runs. -/
def empty [Store σ] : Records σ := ⟨Store.empty, 0⟩

/-- An operation that changes nothing. -/
def settled (r : Records σ) (answer : Except EngineProblem α) : Outcome σ α := ⟨answer, r, []⟩

def failed (r : Records σ) (problem : StoreProblem) : Outcome σ α := r.settled (.error (.store problem))

end Records

namespace Surroundings

/-- Look up a flow. -/
def findFlow [Store σ] (w : Surroundings) (orgId flowId : String) (store : σ) :
    Except StoreProblem (Option Flow) :=
  match w.getFlow orgId flowId with
  | some problem => .error problem
  | none => Store.getFlow orgId flowId store

/-- List the live flows of an organization. -/
def findFlows [Store σ] (w : Surroundings) (orgId : String) (store : σ) :
    Except StoreProblem (List Flow) :=
  match w.activeFlows orgId with
  | some problem => .error problem
  | none => Store.activeFlows orgId store

/-- Look up a run. -/
def findRun [Store σ] (w : Surroundings) (runId : String) (store : σ) : Except StoreProblem Run :=
  match w.getRun runId with
  | some problem => .error problem
  | none => Store.getRun runId store

/-- Write a new run. -/
def record [Store σ] (w : Surroundings) (run : Run) (store : σ) : Except EngineProblem σ :=
  match w.recordRun run with
  | .delivered => (Store.recordRun run store).mapError .store
  | .refused problem => .error (.store problem)
  | .crashed => .error .crashed

/-- Write the continuation of a run. -/
def update [Store σ] (w : Surroundings) (run : Run) (priorSteps : Nat) (store : σ) :
    Except StoreProblem σ :=
  match w.updateRun run with
  | some problem => .error problem
  | none => Store.updateRun run priorSteps store

end Surroundings

end Dunning
