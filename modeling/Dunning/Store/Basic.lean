import Dunning.Run.Basic
import Dunning.Record.Problem

/-!
# Stores

A store keeps flow definitions and the runs made of them. Flows are replaced by
id and keep their place. Runs are only added, and continued while they wait: the
writer of a continuation names the length of the log it has read, and the store
refuses the write when the log has grown since.
-/
namespace Dunning

/-- Why a store refuses an operation. -/
inductive StoreProblem where
  | notFound (id : String)
  | notWaiting (runId : String)
  /-- The run changed since it was read. -/
  | conflict (runId : String)
  | invalidRecord (text : String)
  /-- The text of a record cannot be read back. -/
  | unreadable (cause : Problem)
  /-- The database broke one of its own rules; it has a text of its own for that. -/
  | database
  deriving DecidableEq

namespace StoreProblem

def message : StoreProblem → String
  | notFound id => "not found: " ++ id
  | notWaiting id => "run '" ++ id ++ "' is not waiting and cannot be updated"
  | conflict id => "run '" ++ id ++ "' was updated concurrently"
  | invalidRecord text => "invalid record: " ++ text
  | unreadable cause => "serialization error: " ++ cause.wording
  | database => "database error"

end StoreProblem

/-- What the engine asks of a store. -/
class Store (σ : Type) where
  empty : σ
  /-- Insert a flow, or replace the flow with its id. -/
  saveFlow : Flow → σ → σ
  /-- The flow with an id, if it belongs to the organization and is not deleted. -/
  getFlow : (orgId flowId : String) → σ → Except StoreProblem (Option Flow)
  /-- The live flows of an organization, in the order in which their ids were first saved. -/
  activeFlows : (orgId : String) → σ → Except StoreProblem (List Flow)
  recordRun : Run → σ → Except StoreProblem σ
  getRun : (runId : String) → σ → Except StoreProblem Run
  /-- Replace a waiting run whose log has `priorSteps` steps by its continuation. -/
  updateRun : Run → (priorSteps : Nat) → σ → Except StoreProblem σ
  /-- The runs of a flow, oldest first. -/
  listRuns : (flowId : String) → σ → Except StoreProblem (List Run)

/-- The status that a stored name stands for. -/
def RunStatus.parse (name : String) : Except StoreProblem RunStatus :=
  match ofName? name with
  | some s => .ok s
  | none => .error (.invalidRecord ("unknown run status: " ++ name))

/-- The source that a stored name stands for. -/
def RunSource.parse (name : String) : Except StoreProblem RunSource :=
  match ofName? name with
  | some s => .ok s
  | none => .error (.invalidRecord ("unknown trigger source: " ++ name))

end Dunning
