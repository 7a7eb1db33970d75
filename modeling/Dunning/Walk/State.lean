import Dunning.Run.Basic

/-!
# The state of a walk

A walk collects its whole outcome in one state: the log, the enrollments to
dispatch, and the waits. Suspended waits are pending; waits that the walk goes
past are deferred until the rest of the graph has been walked. At the step
limit the state is truncated and stays as it is.
-/
namespace Dunning

/-- A request to enroll a contact in a message sequence. -/
structure DispatchRequest where
  runId : String
  orgId : String
  nodeId : String
  contactId : Option String
  invoiceId : Option String
  sequence : String
  deriving DecidableEq, Inhabited

structure WalkState where
  runId : String
  maxSteps : Nat
  suspendWaits : Bool
  /-- The time written on steps. -/
  clock : Instant
  /-- The time from which waits are counted. -/
  now : Instant
  log : List Step
  /-- Nodes entered during the run, across resumptions. -/
  visited : List String
  dispatches : List DispatchRequest
  pending : List ResumePoint
  deferred : List ResumePoint
  truncated : Bool
  deriving DecidableEq, Inhabited

namespace WalkState

/-- The state of a fresh run. -/
def start (runId : String) (maxSteps : Nat) (suspendWaits : Bool) (clock : Instant) : WalkState where
  runId := runId
  maxSteps := maxSteps
  suspendWaits := suspendWaits
  clock := clock
  now := clock
  log := []
  visited := []
  dispatches := []
  pending := []
  deferred := []
  truncated := false

/-- The ids of the steps that belong to a node. -/
def enteredIds (log : List Step) : List String :=
  (log.filter fun step => step.nodeKind.isSome).map Step.nodeId

/-- A state that continues a log. The nodes in the log count as visited. -/
def ofLog (runId : String) (log : List Step) (maxSteps : Nat) (suspendWaits : Bool)
    (clock : Instant) : WalkState :=
  { start runId maxSteps suspendWaits clock with log := log, visited := enteredIds log }

def withNow (s : WalkState) (now : Instant) : WalkState := { s with now := now }

/-- A step at the current time. -/
def step (s : WalkState) (nodeId : String) (kind : Option NodeKind) (action : StepAction)
    (detail : String) : Step :=
  ⟨nodeId, kind, action, detail, s.clock⟩

/-- The step that ends a truncated log. -/
def limitStep (s : WalkState) (nodeId : String) : Step :=
  s.step nodeId none .skipped ("Step limit of " ++ toString s.maxSteps ++ " reached; run truncated")

/-- Append a step. At the step limit the state is truncated instead, and nothing is left waiting.
The step was recorded unless the result is truncated. -/
def record (s : WalkState) (step : Step) : WalkState :=
  if s.truncated then s
  else if s.maxSteps ≤ s.log.length then
    { s with truncated := true, pending := [], deferred := [], log := s.log ++ [s.limitStep step.nodeId] }
  else { s with log := s.log ++ [step] }

def visit (s : WalkState) (id : String) : WalkState := { s with visited := id :: s.visited }

/-- Keep the first of each row of equal ids. -/
def withoutRepeats : List String → List String
  | [] => []
  | [id] => [id]
  | a :: b :: rest => if a = b then withoutRepeats (b :: rest) else a :: withoutRepeats (b :: rest)

/-- Node ids in the order they were logged, without consecutive repeats. -/
def visitation (s : WalkState) : List String := withoutRepeats (s.log.map Step.nodeId)

@[simp] theorem record_visited (s : WalkState) (step : Step) : (s.record step).visited = s.visited := by
  simp only [record]
  split
  · rfl
  · split <;> rfl

theorem record_deferred_le (s : WalkState) (step : Step) :
    (s.record step).deferred.length ≤ s.deferred.length := by
  simp only [record]
  split
  · exact Nat.le_refl _
  · split
    · exact Nat.zero_le _
    · exact Nat.le_refl _

@[simp] theorem visit_visited (s : WalkState) (id : String) :
    (s.visit id).visited = id :: s.visited := rfl

@[simp] theorem visit_deferred (s : WalkState) (id : String) :
    (s.visit id).deferred = s.deferred := rfl

end WalkState

end Dunning
