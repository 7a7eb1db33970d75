import Dunning.Store.Basic
import Dunning.Store.Keyed
import Dunning.Run.Codec

/-!
# The table store

Two tables. A row holds the columns by which it is selected next to the text of
the record, and a record is read back from its text. A flow row keeps its place
when its flow is saved again, and ids are distinct in both tables. A continuation
writes only the columns that it can change.
-/
namespace Dunning

structure FlowRow where
  flowId : String
  orgId : String
  status : FlowStatus
  deletedAt : Option Instant
  /-- The text of the whole flow. -/
  definition : String
  deriving DecidableEq, Inhabited

structure RunRow where
  runId : String
  flowId : String
  orgId : String
  triggeredBy : RunSource
  /-- The text of the event. -/
  triggerEvent : String
  status : RunStatus
  startedAt : Instant
  completedAt : Option Instant
  log : List Step
  pending : List ResumePoint
  deriving DecidableEq, Inhabited

structure TableStore where
  flowRows : List FlowRow
  runRows : List RunRow
  distinctFlows : (flowRows.map FlowRow.flowId).Nodup
  distinctRuns : (runRows.map RunRow.runId).Nodup
  deriving DecidableEq

namespace FlowRow

def ofFlow (flow : Flow) : FlowRow :=
  ⟨flow.id, flow.orgId, flow.status, flow.deletedAt, Flow.codec.text flow⟩

/-- The flow of a row. The deletion mark is taken from its column. -/
def toFlow (row : FlowRow) : Except StoreProblem Flow :=
  match Flow.codec.parse row.definition with
  | .ok flow => .ok { flow with deletedAt := row.deletedAt }
  | .error problem => .error (.unreadable problem)

end FlowRow

namespace RunRow

def ofRun (run : Run) : RunRow :=
  ⟨run.id, run.flowId, run.orgId, run.triggeredBy, Event.codec.text run.triggerEvent, run.status,
    run.startedAt, run.completedAt, run.log, run.pending⟩

def toRun (row : RunRow) : Except StoreProblem Run :=
  match Event.codec.parse row.triggerEvent with
  | .ok event => .ok ⟨row.runId, row.flowId, row.orgId, row.triggeredBy, event, row.status,
      row.startedAt, row.completedAt, row.log, row.pending⟩
  | .error problem => .error (.unreadable problem)

/-- Write the columns that a continuation can change. -/
def continued (row : RunRow) (run : Run) : RunRow :=
  { row with status := run.status, completedAt := run.completedAt, log := run.log,
             pending := run.pending }

/-- Whether a row may be continued by a run whose log had `priorSteps` steps. -/
def continues (row : RunRow) (run : Run) (priorSteps : Nat) : Bool :=
  row.runId == run.id && row.status == .waiting && row.log.length == priorSteps

/-- The text by which the rows of a flow are put in order. -/
def sortKey (row : RunRow) : String := Timestamp.render "+00:00" row.startedAt

end RunRow

namespace TableStore

def empty : TableStore := ⟨[], [], List.nodup_nil, List.nodup_nil⟩

instance : Inhabited TableStore := ⟨empty⟩

def saveFlow (flow : Flow) (s : TableStore) : TableStore :=
  { s with
    flowRows := Keyed.put FlowRow.flowId (.ofFlow flow) s.flowRows
    distinctFlows := Keyed.nodup_put FlowRow.flowId (.ofFlow flow) s.distinctFlows }

def getFlow (orgId flowId : String) (s : TableStore) : Except StoreProblem (Option Flow) :=
  match s.flowRows.find? fun r => r.flowId == flowId && r.orgId == orgId && r.deletedAt.isNone with
  | some row => row.toFlow.map some
  | none => .ok none

def activeFlows (orgId : String) (s : TableStore) : Except StoreProblem (List Flow) :=
  (s.flowRows.filter fun r => r.orgId == orgId && r.status == .active && r.deletedAt.isNone).mapM
    FlowRow.toFlow

def findRun (runId : String) (s : TableStore) : Option RunRow :=
  Keyed.find? RunRow.runId runId s.runRows

def recordRun (run : Run) (s : TableStore) : Except StoreProblem TableStore :=
  match new : s.findRun run.id with
  | some _ => .error .database
  | none => .ok { s with
      runRows := s.runRows ++ [.ofRun run]
      distinctRuns := Keyed.nodup_append_of_find?_eq_none RunRow.runId (.ofRun run) s.distinctRuns new }

def getRun (runId : String) (s : TableStore) : Except StoreProblem Run :=
  match s.findRun runId with
  | some row => row.toRun
  | none => .error (.notFound runId)

/-- The longest log that a row can tell. -/
def maxSteps : Nat := 9223372036854775807

/-- Continue the row that admits it. -/
def continueRow (run : Run) (priorSteps : Nat) (row : RunRow) : RunRow :=
  if row.continues run priorSteps then row.continued run else row

theorem continueRow_runId (run : Run) (priorSteps : Nat) (row : RunRow) :
    (continueRow run priorSteps row).runId = row.runId := by
  simp only [continueRow]
  split <;> rfl

theorem map_runId_continueRow (run : Run) (priorSteps : Nat) (rows : List RunRow) :
    (rows.map (continueRow run priorSteps)).map RunRow.runId = rows.map RunRow.runId := by
  rw [List.map_map]
  exact List.map_congr_left fun row _ => continueRow_runId run priorSteps row

def continueRun (run : Run) (priorSteps : Nat) (s : TableStore) : TableStore :=
  { s with
    runRows := s.runRows.map (continueRow run priorSteps)
    distinctRuns := (map_runId_continueRow run priorSteps s.runRows).symm ▸ s.distinctRuns }

/-- Continue a run. When no row admits it, say why: the run is missing, over, or has grown. -/
def updateRun (run : Run) (priorSteps : Nat) (s : TableStore) : Except StoreProblem TableStore :=
  if maxSteps < priorSteps then
    .error (.invalidRecord ("log too long: " ++ toString priorSteps))
  else if s.runRows.any fun row => row.continues run priorSteps then
    .ok (s.continueRun run priorSteps)
  else do
    let stored ← s.getRun run.id
    if stored.status ≠ .waiting then .error (.notWaiting run.id) else .error (.conflict run.id)

/-- Rows whose keys are equal keep the order in which they were recorded. -/
def listRuns (flowId : String) (s : TableStore) : Except StoreProblem (List Run) :=
  ((s.runRows.filter fun r => r.flowId == flowId).mergeSort fun a b => a.sortKey ≤ b.sortKey).mapM
    RunRow.toRun

instance : Store TableStore where
  empty := empty
  saveFlow := saveFlow
  getFlow := getFlow
  activeFlows := activeFlows
  recordRun := recordRun
  getRun := getRun
  updateRun := updateRun
  listRuns := listRuns

end TableStore

end Dunning
