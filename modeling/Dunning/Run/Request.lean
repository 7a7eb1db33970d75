import Dunning.Walk.State
import Dunning.Flow.Codec
import Dunning.Run.Codec
import Dunning.Trigger

/-!
# Settings, requests and notices

What the engine is told, what it asks of others, and what it reports.
-/
namespace Dunning

/-- The bound on log steps per run, and whether trigger filters are enforced. -/
structure Settings where
  maxSteps : Nat
  enforceTriggerFilters : Bool
  deriving DecidableEq, Repr

namespace Settings

def standard : Settings := ⟨500, false⟩

instance : Inhabited Settings := ⟨standard⟩

def codec : Codec Settings :=
  .record "EngineConfig"
    (.cons (.defaulted "max_steps" .size standard.maxSteps) <|
      .cons (.defaulted "enforce_trigger_filters" .bool standard.enforceTriggerFilters) .done)
    (fun (maxSteps, enforceTriggerFilters, ()) => ⟨maxSteps, enforceTriggerFilters⟩)
    (fun s => (s.maxSteps, s.enforceTriggerFilters, ()))

def matcher (s : Settings) : Matcher := ⟨s.enforceTriggerFilters⟩

end Settings

def DispatchRequest.codec : Codec DispatchRequest :=
  .record "DispatchRequest"
    (.cons (.required "runId" .string) <| .cons (.required "orgId" .string) <|
      .cons (.required "nodeId" .string) <| .cons (.optional "contactId" .string) <|
      .cons (.optional "invoiceId" .string) <| .cons (.required "sequence" .string) .done)
    (fun (runId, orgId, nodeId, contactId, invoiceId, sequence, ()) =>
      ⟨runId, orgId, nodeId, contactId, invoiceId, sequence⟩)
    (fun r => (r.runId, r.orgId, r.nodeId, r.contactId, r.invoiceId, r.sequence, ()))

/-- What is reported while runs are made. -/
inductive Notice where
  | runRecorded (runId flowId orgId : String) (status : RunStatus) (steps : Nat)
  | runResumed (runId flowId : String) (status : RunStatus) (steps : Nat)
  | dispatchFailed (runId nodeId error : String)
  | flowFailed (flowId orgId error : String)
  deriving DecidableEq, Inhabited

namespace Notice

/-- The kinds of notices. -/
inductive Kind where
  | runRecorded
  | runResumed
  | dispatchFailed
  | flowFailed
  deriving DecidableEq, Repr

namespace Kind

def name : Kind → String
  | runRecorded => "run_recorded"
  | runResumed => "run_resumed"
  | dispatchFailed => "dispatch_failed"
  | flowFailed => "flow_failed"

def all : List Kind := [runRecorded, runResumed, dispatchFailed, flowFailed]

/-- The name of the record that holds a notice of this kind. -/
def title : Kind → String
  | runRecorded => "struct variant RunEvent::RunRecorded"
  | runResumed => "struct variant RunEvent::RunResumed"
  | dispatchFailed => "struct variant RunEvent::DispatchFailed"
  | flowFailed => "struct variant RunEvent::FlowFailed"

end Kind

def kind : Notice → Kind
  | runRecorded .. => .runRecorded
  | runResumed .. => .runResumed
  | dispatchFailed .. => .dispatchFailed
  | flowFailed .. => .flowFailed

def recordedFields :=
  Fields.cons (.required "run_id" .string) <| .cons (.required "flow_id" .string) <|
    .cons (.required "org_id" .string) <| .cons (.required "status" RunStatus.codec) <|
    .cons (.required "steps" .size) .done

def resumedFields :=
  Fields.cons (.required "run_id" .string) <| .cons (.required "flow_id" .string) <|
    .cons (.required "status" RunStatus.codec) <| .cons (.required "steps" .size) .done

def dispatchFields :=
  Fields.cons (.required "run_id" .string) <| .cons (.required "node_id" .string) <|
    .cons (.required "error" .string) .done

def flowFields :=
  Fields.cons (.required "flow_id" .string) <| .cons (.required "org_id" .string) <|
    .cons (.required "error" .string) .done

/-- Read the fields of a notice of a known kind from entries or from positions. -/
def readFields (kind : Kind) (body : List Doc.Entry ⊕ List Doc) : Except Problem Notice :=
  let fill {σ τ : Type} (fields : Fields σ τ) (make : τ → Notice) : Except Problem Notice :=
    match body with
    | .inl entries => (fields.readObject .held entries none).map make
    | .inr items => (fields.readArray .held kind.title items none).map make
  match kind with
  | .runRecorded => fill recordedFields fun (run, flow, org, status, steps, ()) =>
      .runRecorded run flow org status steps
  | .runResumed => fill resumedFields fun (run, flow, status, steps, ()) =>
      .runResumed run flow status steps
  | .dispatchFailed => fill dispatchFields fun (run, node, error, ()) => .dispatchFailed run node error
  | .flowFailed => fill flowFields fun (flow, org, error, ()) => .flowFailed flow org error

def writeFields : Notice → List (String × Json)
  | runRecorded run flow org status steps => recordedFields.write (run, flow, org, status, steps, ())
  | runResumed run flow status steps => resumedFields.write (run, flow, status, steps, ())
  | dispatchFailed run node error => dispatchFields.write (run, node, error, ())
  | flowFailed flow org error => flowFields.write (flow, org, error, ())

/-- The kind of a notice is named by a text. -/
def readKind : Doc → Except Problem Kind := Codec.readTag (Kind.all.map fun k => (k.name, k))

/-- Find the kind among the entries; the others are held, the last one first. -/
def readEntries (kind : Option Kind) (others : List Doc.Entry) :
    List Doc.Entry → Except Problem (Option Kind × List Doc.Entry)
  | [] => .ok (kind, others)
  | (.error fault, _) :: _ => .error (.malformed fault)
  | (.ok name, doc) :: rest =>
      if name = "event" then
        if kind.isSome then .error (.duplicateField "event")
        else do
          let k ← readKind doc
          readEntries (some k) others rest
      else do
        doc.hold
        readEntries kind ((.ok name, doc) :: others) rest

/-- A notice is an object with its kind under `event`, or an array that starts with its kind. -/
def codec : Codec Notice where
  read _ doc := match doc with
    | .object entries unclosed => do
        let (kind, others) ← readEntries none [] entries
        Doc.close unclosed
        match kind with
        | none => .error (.missingField "event")
        | some k => readFields k (.inl others.reverse)
    | .array [] unclosed => do
        Doc.close unclosed
        .error (.missingField "event")
    | .array (tag :: items) unclosed => do
        let k ← readKind tag
        items.forM Doc.hold
        Doc.close unclosed
        readFields k (.inr items)
    | d => .error (d.mismatch "internally tagged enum RunEvent")
  write n := .object (("event", .string n.kind.name) :: n.writeFields)

end Notice

end Dunning
