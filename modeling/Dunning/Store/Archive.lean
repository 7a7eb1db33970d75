import Dunning.Store.Table
import Dunning.Engine.Basic

/-!
# Archives

The form in which the records of a table store are kept between two uses: the
rows of both tables, and how many runs have been named.
-/
namespace Dunning

structure Archive where
  named : Nat
  flowRows : List FlowRow
  runRows : List RunRow
  deriving DecidableEq

def FlowRow.codec : Codec FlowRow :=
  .record "FlowRow"
    (.cons (.required "flowId" .string) <| .cons (.required "orgId" .string) <|
      .cons (.required "status" FlowStatus.codec) <| .cons (.optional "deletedAt" .timestamp) <|
      .cons (.required "definition" .string) .done)
    (fun (flowId, orgId, status, deletedAt, definition, ()) =>
      ⟨flowId, orgId, status, deletedAt, definition⟩)
    (fun r => (r.flowId, r.orgId, r.status, r.deletedAt, r.definition, ()))

def RunRow.codec : Codec RunRow :=
  .record "RunRow"
    (.cons (.required "runId" .string) <| .cons (.required "flowId" .string) <|
      .cons (.required "orgId" .string) <| .cons (.required "triggeredBy" RunSource.codec) <|
      .cons (.required "triggerEvent" .string) <| .cons (.required "status" RunStatus.codec) <|
      .cons (.required "startedAt" .timestamp) <| .cons (.optional "completedAt" .timestamp) <|
      .cons (.required "log" (.list Step.codec)) <|
      .cons (.required "pending" (.list ResumePoint.codec)) .done)
    (fun (runId, flowId, orgId, triggeredBy, triggerEvent, status, startedAt, completedAt, log,
        pending, ()) =>
      ⟨runId, flowId, orgId, triggeredBy, triggerEvent, status, startedAt, completedAt, log, pending⟩)
    (fun r => (r.runId, r.flowId, r.orgId, r.triggeredBy, r.triggerEvent, r.status, r.startedAt,
      r.completedAt, r.log, r.pending, ()))

namespace Archive

def codec : Codec Archive :=
  .record "Archive"
    (.cons (.required "named" .size) <| .cons (.required "flows" (.list FlowRow.codec)) <|
      .cons (.required "runs" (.list RunRow.codec)) .done)
    (fun (named, flowRows, runRows, ()) => ⟨named, flowRows, runRows⟩)
    (fun a => (a.named, a.flowRows, a.runRows, ()))

def ofRecords (r : Records TableStore) : Archive := ⟨r.named, r.store.flowRows, r.store.runRows⟩

/-- The records of an archive. Rows with a repeated id make no table. -/
def toRecords? (a : Archive) : Option (Records TableStore) :=
  if h : (a.flowRows.map FlowRow.flowId).Nodup ∧ (a.runRows.map RunRow.runId).Nodup then
    some ⟨⟨a.flowRows, a.runRows, h.1, h.2⟩, a.named⟩
  else none

theorem toRecords?_ofRecords (r : Records TableStore) : (ofRecords r).toRecords? = some r := by
  obtain ⟨⟨flowRows, runRows, hf, hr⟩, named⟩ := r
  simp [toRecords?, ofRecords, hf, hr]

end Archive

end Dunning
