import Dunning.Flow.Basic
import Dunning.Record.Fields

/-!
# Flows as documents

The records of a flow. A node is written with its kind under `type` and its
payload under `data`. Since the payload may stand before the kind, a node's
other entries are held back until all of them have been read.
-/
namespace Dunning

def FlowStatus.codec : Codec FlowStatus := .choice (all.map fun s => (s.name, s)) name

def TriggerType.codec : Codec TriggerType := .choice (all.map fun t => (t.name, t)) name

def Operator.codec : Codec Operator := .choice (all.map fun o => (o.symbol, o)) symbol

def WaitUnit.codec : Codec WaitUnit := .choice (all.map fun u => (u.name, u)) name

def NodeKind.codec : Codec NodeKind := .choice (all.map fun k => (k.name, k)) name

/-- A kind in front of a payload. -/
def NodeKind.readTag : Doc → Except Problem NodeKind := Codec.readTag (all.map fun k => (k.name, k))

def Position.codec : Codec Position :=
  .record "Position"
    (.cons (.required "x" .float) <| .cons (.required "y" .float) .done)
    (fun (x, y, ()) => ⟨x, y⟩)
    (fun p => (p.x, p.y, ()))

def TriggerFilters.codec : Codec TriggerFilters :=
  .record "TriggerFilters"
    (.cons (.optional "tag" .string) <| .cons (.optional "language" .string) .done)
    (fun (tag, language, ()) => ⟨tag, language⟩)
    (fun f => (f.tag, f.language, ()))

def Trigger.codec : Codec Trigger :=
  .record "TriggerData"
    (.cons (.required "triggerType" TriggerType.codec) <|
      .cons (.defaulted "filters" TriggerFilters.codec .none) .done)
    (fun (type, filters, ()) => ⟨type, filters⟩)
    (fun t => (t.type, t.filters, ()))

def Condition.codec : Codec Condition :=
  .record "Condition"
    (.cons (.required "field" .string) <| .cons (.required "operator" Operator.codec) <|
      .cons (.required "value" .free) .done)
    (fun (field, operator, value, ()) => ⟨field, operator, value⟩)
    (fun c => (c.field, c.operator, c.value, ()))

def Branch.codec : Codec Branch :=
  .record "Branch"
    (.cons (.required "id" .string) <| .cons (.required "name" .string) <|
      .cons (.required "condition" Condition.codec) .done)
    (fun (id, name, condition, ()) => ⟨id, name, condition⟩)
    (fun b => (b.id, b.name, b.condition, ()))

/-- The branches of a switch. -/
def Branch.listCodec : Codec (List Branch) :=
  .record "SwitchData"
    (.cons (.defaulted "branches" (.list Branch.codec) []) .done)
    (fun (branches, ()) => branches)
    (fun branches => (branches, ()))

def Enrollment.codec : Codec Enrollment :=
  .record "ActionEnrollData"
    (.cons (.required "sequence" .string) <| .cons (.defaulted "messagePreview" .string "") .done)
    (fun (sequence, messagePreview, ()) => ⟨sequence, messagePreview⟩)
    (fun e => (e.sequence, e.messagePreview, ()))

def Wait.codec : Codec Wait :=
  .record "WaitData"
    (.cons (.required "duration" (.natural 4294967295 "u32")) <|
      .cons (.required "unit" WaitUnit.codec) .done)
    (fun (duration, unit, ()) => ⟨duration, unit⟩)
    (fun w => (w.duration, w.unit, ()))

namespace NodeBody

/-- Read the payload of a node of a known kind. -/
def readPayload (kind : NodeKind) (mode : Reading) (doc : Doc) : Except Problem NodeBody :=
  match kind with
  | .trigger => (Trigger.codec.read mode doc).map trigger
  | .switch => (Branch.listCodec.read mode doc).map switch
  | .enroll => (Enrollment.codec.read mode doc).map enroll
  | .wait => (Wait.codec.read mode doc).map wait

def writePayload : NodeBody → Json
  | trigger t => Trigger.codec.write t
  | switch branches => Branch.listCodec.write branches
  | enroll e => Enrollment.codec.write e
  | wait w => Wait.codec.write w

/-- What is known of a node's kind and payload. -/
inductive Draft where
  | nothing
  | kindOnly (kind : NodeKind)
  /-- A payload that is held until its kind is known. -/
  | payloadOnly (doc : Doc)
  | complete (body : NodeBody)

/-- Read a kind or a payload. -/
def Draft.put (draft : Draft) (mode : Reading) (name : String) (doc : Doc) : Except Problem Draft :=
  if name = "type" then
    match draft with
    | .nothing => do return .kindOnly (← NodeKind.codec.read mode doc)
    | .payloadOnly held => do
        let kind ← NodeKind.codec.read mode doc
        return .complete (← readPayload kind .held held)
    | _ => .error (.duplicateField "type")
  else if name = "data" then
    match draft with
    | .nothing => do
        doc.hold
        return .payloadOnly doc
    | .kindOnly kind => do return .complete (← readPayload kind mode doc)
    | _ => .error (.duplicateField "data")
  else .ok draft

def Draft.finish : Draft → Except Problem NodeBody
  | nothing => .error (.missingField "type")
  | kindOnly _ => .error (.missingField "data")
  | payloadOnly _ => .error (.missingField "type")
  | complete body => .ok body

/-- Read entries that may hold a kind and a payload. -/
def readEntries (mode : Reading) (draft : Draft) : List Doc.Entry → Except Problem Draft
  | [] => .ok draft
  | (.error fault, _) :: _ => .error (.malformed fault)
  | (.ok name, doc) :: rest => do
      let next ← draft.put mode name doc
      readEntries mode next rest

/-- The entries of a kind and its payload. -/
def writeEntries (body : NodeBody) : List (String × Json) :=
  [("type", NodeKind.codec.write body.kind), ("data", body.writePayload)]

/-- A kind and a payload that stand alone. -/
def codec : Codec NodeBody where
  read mode doc := match doc with
    | .object entries unclosed => do
        let draft ← readEntries mode .nothing entries
        Doc.close unclosed
        draft.finish
    | .array [] unclosed => do
        Doc.close unclosed
        .error (.wrongLength 0 title)
    | .array [tag] unclosed => do
        let _ ← NodeKind.readTag tag
        Doc.close unclosed
        .error (.wrongLength 1 title)
    | .array (tag :: payload :: left) unclosed => do
        let kind ← NodeKind.readTag tag
        let body ← readPayload kind mode payload
        if !left.isEmpty then .error (.malformed .trailing)
        Doc.close unclosed
        return body
    | d => .error (d.mismatch title)
  write body := .object body.writeEntries
where
  title : String := "adjacently tagged enum NodeData"

end NodeBody

namespace Node

/-- The parts of a node as they are found; other entries are held, the last one first. -/
structure Draft where
  id : Option String
  position : Option Position
  others : List Doc.Entry

def Draft.put (draft : Draft) (mode : Reading) (name : String) (doc : Doc) : Except Problem Draft :=
  if name = "id" then
    if draft.id.isSome then .error (.duplicateField "id")
    else do return { draft with id := some (← Codec.string.read mode doc) }
  else if name = "position" then
    if draft.position.isSome then .error (.duplicateField "position")
    else do return { draft with position := some (← Position.codec.read mode doc) }
  else do
    doc.hold
    return { draft with others := (.ok name, doc) :: draft.others }

def readEntries (mode : Reading) (draft : Draft) : List Doc.Entry → Except Problem Draft
  | [] => .ok draft
  | (.error fault, _) :: _ => .error (.malformed fault)
  | (.ok name, doc) :: rest => do
      let next ← draft.put mode name doc
      readEntries mode next rest

/-- A node is read from an object only. Its id and position are read as they come, its kind and
payload at the end. -/
def codec : Codec Node where
  read mode doc := match doc with
    | .object entries unclosed => do
        let draft ← readEntries mode ⟨none, none, []⟩ entries
        Doc.close unclosed
        match draft.id with
        | none => .error (.missingField "id")
        | some id => do
            let body ← NodeBody.readEntries .held .nothing draft.others.reverse
            return ⟨id, draft.position.getD .origin, ← body.finish⟩
    | d => .error (d.mismatch "struct FlowNode")
  write n := .object
    (("id", .string n.id) :: ("position", Position.codec.write n.position) :: n.body.writeEntries)

end Node

def Edge.codec : Codec Edge :=
  .record "FlowEdge"
    (.cons (.required "id" .string) <| .cons (.required "source" .string) <|
      .cons (.required "target" .string) <| .cons (.optional "sourceHandle" .string) <|
      .cons (.optional "targetHandle" .string) .done)
    (fun (id, source, target, sourceHandle, targetHandle, ()) =>
      ⟨id, source, target, sourceHandle, targetHandle⟩)
    (fun e => (e.id, e.source, e.target, e.sourceHandle, e.targetHandle, ()))

def Flow.codec : Codec Flow :=
  .record "FlowDefinition"
    (.cons (.required "id" .string) <| .cons (.required "orgId" .string) <|
      .cons (.required "name" .string) <| .cons (.required "status" FlowStatus.codec) <|
      .cons (.defaulted "nodes" (.list Node.codec) []) <|
      .cons (.defaulted "edges" (.list Edge.codec) []) <|
      .cons (.optional "deletedAt" .timestamp) .done)
    (fun (id, orgId, name, status, nodes, edges, deletedAt, ()) =>
      ⟨id, orgId, name, status, nodes, edges, deletedAt⟩)
    (fun f => (f.id, f.orgId, f.name, f.status, f.nodes, f.edges, f.deletedAt, ()))

end Dunning
