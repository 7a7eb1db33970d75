import Dunning.Run.Basic
import Dunning.Flow.Codec

/-!
# Runs as documents
-/
namespace Dunning

def Mode.codec : Codec Mode := .choice (all.map fun m => (m.name, m)) name

def StepAction.codec : Codec StepAction := .choice (all.map fun a => (a.name, a)) name

def RunStatus.codec : Codec RunStatus := .choice (all.map fun s => (s.name, s)) name

def RunSource.codec : Codec RunSource := .choice (all.map fun s => (s.name, s)) name

def Step.codec : Codec Step :=
  .record "ExecutionStep"
    (.cons (.required "nodeId" .string) <| .cons (.optional "nodeKind" NodeKind.codec) <|
      .cons (.required "action" StepAction.codec) <| .cons (.required "detail" .string) <|
      .cons (.required "timestamp" .timestamp) .done)
    (fun (nodeId, nodeKind, action, detail, timestamp, ()) =>
      ⟨nodeId, nodeKind, action, detail, timestamp⟩)
    (fun s => (s.nodeId, s.nodeKind, s.action, s.detail, s.timestamp, ()))

def ResumePoint.codec : Codec ResumePoint :=
  .record "ResumePoint"
    (.cons (.required "nodeId" .string) <| .cons (.required "resumeAt" .timestamp) .done)
    (fun (nodeId, resumeAt, ()) => ⟨nodeId, resumeAt⟩)
    (fun p => (p.nodeId, p.resumeAt, ()))

def Run.codec : Codec Run :=
  .record "FlowRun"
    (.cons (.required "id" .string) <| .cons (.required "flowId" .string) <|
      .cons (.required "orgId" .string) <| .cons (.required "triggeredBy" RunSource.codec) <|
      .cons (.required "triggerEvent" Event.codec) <| .cons (.required "status" RunStatus.codec) <|
      .cons (.required "startedAt" .timestamp) <| .cons (.optional "completedAt" .timestamp) <|
      .cons (.required "log" (.list Step.codec)) <|
      .cons ⟨"pending", .list ResumePoint.codec, some [], List.isEmpty⟩ .done)
    (fun (id, flowId, orgId, triggeredBy, triggerEvent, status, startedAt, completedAt, log,
        pending, ()) =>
      ⟨id, flowId, orgId, triggeredBy, triggerEvent, status, startedAt, completedAt, log, pending⟩)
    (fun r => (r.id, r.flowId, r.orgId, r.triggeredBy, r.triggerEvent, r.status, r.startedAt,
      r.completedAt, r.log, r.pending, ()))

end Dunning
