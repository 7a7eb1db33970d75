import Dunning.Store.Basic
import Dunning.Store.Keyed

/-!
# The memory store

Two lists in the order of insertion. Flow ids are distinct. Run ids may repeat;
the first run with an id is the one that is read and continued.
-/
namespace Dunning

structure MemoryStore where
  flows : List Flow
  /-- In the order in which they were recorded. -/
  runs : List Run
  distinct : (flows.map Flow.id).Nodup

namespace MemoryStore

def empty : MemoryStore := ⟨[], [], List.nodup_nil⟩

instance : Inhabited MemoryStore := ⟨empty⟩

def saveFlow (flow : Flow) (s : MemoryStore) : MemoryStore where
  flows := Keyed.put Flow.id flow s.flows
  runs := s.runs
  distinct := Keyed.nodup_put Flow.id flow s.distinct

def getFlow (orgId flowId : String) (s : MemoryStore) : Option Flow :=
  s.flows.find? fun f => f.id == flowId && f.orgId == orgId && f.deletedAt.isNone

def activeFlows (orgId : String) (s : MemoryStore) : List Flow :=
  s.flows.filter fun f => f.orgId == orgId && f.isLive

def recordRun (run : Run) (s : MemoryStore) : MemoryStore := { s with runs := s.runs ++ [run] }

def findRun (runId : String) (s : MemoryStore) : Option Run := Keyed.find? Run.id runId s.runs

def getRun (runId : String) (s : MemoryStore) : Except StoreProblem Run :=
  match s.findRun runId with
  | some run => .ok run
  | none => .error (.notFound runId)

def updateRun (run : Run) (priorSteps : Nat) (s : MemoryStore) : Except StoreProblem MemoryStore := do
  let stored ← s.getRun run.id
  if stored.status ≠ .waiting then .error (.notWaiting run.id)
  else if stored.log.length ≠ priorSteps then .error (.conflict run.id)
  else return { s with runs := Keyed.put Run.id run s.runs }

def listRuns (flowId : String) (s : MemoryStore) : List Run :=
  s.runs.filter fun r => r.flowId == flowId

instance : Store MemoryStore where
  empty := empty
  saveFlow := saveFlow
  getFlow orgId flowId s := .ok (s.getFlow orgId flowId)
  activeFlows orgId s := .ok (s.activeFlows orgId)
  recordRun run s := .ok (s.recordRun run)
  getRun := getRun
  updateRun := updateRun
  listRuns flowId s := .ok (s.listRuns flowId)

end MemoryStore

end Dunning
