import Dunning.Flow.Codec
import Dunning.Proofs.Record.Fields

/-!
# Flows that are read back

The codec of flows is lawful. All that may keep a flow from being read back are the values of
its branch conditions, seven containers below the flow: every other part of it fits.
-/
namespace Dunning

namespace NodeBody

/-- The conditions of a switch. -/
def conditions : NodeBody → List Condition
  | switch branches => branches.map Branch.condition
  | _ => []

/-- The codec of the payload of a kind. -/
def payloadCodec (kind : NodeKind) : Codec NodeBody := ⟨readPayload kind, writePayload⟩

end NodeBody

/-- Whether all values of conditions in a flow are nested at most 120 deep, and without an object
that begins with the key that stands for an embedded text. -/
def Flow.Restorable (flow : Flow) : Prop :=
  ∀ node ∈ flow.nodes, ∀ condition ∈ node.body.conditions, condition.value.Restorable 120

section

variable {need : Nat}

/-! ## Parts without free values -/

theorem FlowStatus.codec_lawful : FlowStatus.codec.Lawful need fun _ _ => True :=
  .choice fun s => by cases s <;> rfl

theorem TriggerType.codec_lawful : TriggerType.codec.Lawful need fun _ _ => True :=
  .choice fun t => by cases t <;> rfl

theorem Operator.codec_lawful : Operator.codec.Lawful need fun _ _ => True :=
  .choice fun o => by cases o <;> rfl

theorem WaitUnit.codec_lawful : WaitUnit.codec.Lawful need fun _ _ => True :=
  .choice fun u => by cases u <;> rfl

theorem NodeKind.codec_lawful : NodeKind.codec.Lawful need fun _ _ => True :=
  .choice fun k => by cases k <;> rfl

theorem Position.codec_lawful : Position.codec.Lawful (need + 1) fun _ _ => True :=
  (Codec.Lawful.record (.cons (.required "x" .float)
    (.cons (.required "y" .float) .done (by decide)) (by decide))
    (fun _ => rfl) fun _ => rfl).congr (by simp)

theorem TriggerFilters.codec_lawful : TriggerFilters.codec.Lawful (need + 1) fun _ _ => True :=
  (Codec.Lawful.record (.cons (.optional "tag" .string fun _ => by simp [Codec.string])
    (.cons (.optional "language" .string fun _ => by simp [Codec.string]) .done (by decide)) (by decide))
    (fun _ => rfl) fun _ => rfl).congr (by simp)

theorem TriggerFilters.reads_none (Allowed : String → Prop) {room : Nat} (h : need + 1 ≤ room) :
    TriggerFilters.codec.Reads Allowed room .none := by
  obtain ⟨room, rfl, -⟩ := Codec.exists_room h
  exact ⟨.direct, .object [] Option.none, .object (by simp) (by simp), rfl⟩

theorem Trigger.codec_lawful : Trigger.codec.Lawful (need + 2) fun _ _ => True :=
  (Codec.Lawful.record (.cons (.required "triggerType" TriggerType.codec_lawful)
    (.cons (.defaulted "filters" TriggerFilters.codec_lawful TriggerFilters.reads_none) .done
      (by decide)) (by decide)) (fun _ => rfl) fun _ => rfl).congr (by simp)

theorem Enrollment.codec_lawful : Enrollment.codec.Lawful (need + 1) fun _ _ => True :=
  (Codec.Lawful.record (.cons (.required "sequence" .string)
    (.cons (.defaulted "messagePreview" .string fun _ _ _ => ⟨.direct, .string "", .string, rfl⟩) .done
      (by decide)) (by decide)) (fun _ => rfl) fun _ => rfl).congr (by simp)

theorem Wait.codec_lawful : Wait.codec.Lawful (need + 1) fun _ _ => True :=
  (Codec.Lawful.record (.cons (.required "duration" (.natural (by decide) "u32"))
    (.cons (.required "unit" WaitUnit.codec_lawful) .done (by decide)) (by decide))
    (fun _ => rfl) fun _ => rfl).congr (by simp)

theorem Edge.codec_lawful : Edge.codec.Lawful (need + 1) fun _ _ => True :=
  (Codec.Lawful.record (.cons (.required "id" .string) (.cons (.required "source" .string)
    (.cons (.required "target" .string)
      (.cons (.optional "sourceHandle" .string fun _ => by simp [Codec.string])
        (.cons (.optional "targetHandle" .string fun _ => by simp [Codec.string]) .done
          (by decide)) (by decide)) (by decide)) (by decide)) (by decide))
    (fun _ => rfl) fun _ => rfl).congr (by simp)

/-! ## Parts with free values -/

theorem Condition.codec_lawful :
    Condition.codec.Lawful (need + 1) fun room c => c.value.Restorable (room - 1) :=
  (Codec.Lawful.record (.cons (.required "field" .string)
    (.cons (.required "operator" Operator.codec_lawful)
      (.cons (.required "value" .free) .done (by decide)) (by decide)) (by decide))
    (fun _ => rfl) fun _ => rfl).congr (by simp)

theorem Branch.codec_lawful :
    Branch.codec.Lawful (need + 2) fun room b => b.condition.value.Restorable (room - 2) :=
  (Codec.Lawful.record (.cons (.required "id" .string) (.cons (.required "name" .string)
    (.cons (.required "condition" Condition.codec_lawful) .done (by decide)) (by decide)) (by decide))
    (fun _ => rfl) fun _ => rfl).congr (by simp [Nat.sub_sub])

theorem Branch.listCodec_lawful : Branch.listCodec.Lawful (need + 4) fun room branches =>
    ∀ b ∈ branches, b.condition.value.Restorable (room - 4) :=
  (Codec.Lawful.record (.cons (.defaulted "branches" (.list Branch.codec_lawful)
    (Codec.Lawful.list_reads_nil Branch.codec)) .done (by decide)) (fun _ => rfl) fun _ => rfl).congr
    (by simp [Nat.sub_sub])

/-! ## Nodes -/

/-- A codec whose values are wrapped up. -/
theorem Codec.Lawful.wrap {α β : Type} {codec : Codec α} {wrapped : Codec β} {Fits : Nat → α → Prop}
    (h : codec.Lawful need Fits) (wrap : α → β) (injective : Function.Injective wrap)
    (read : ∀ mode doc, wrapped.read mode doc = (codec.read mode doc).map wrap)
    (write : ∀ a, wrapped.write (wrap a) = codec.write a) :
    wrapped.Lawful need fun room b => ∃ a, b = wrap a ∧ Fits room a := by
  have hreads : ∀ {Allowed room b}, wrapped.Reads Allowed room b →
      ∃ a, b = wrap a ∧ codec.Reads Allowed room a := by
    rintro Allowed room b ⟨mode, doc, hdoc, hread⟩
    rw [read] at hread
    obtain ⟨a, hvalue, rfl⟩ := map_eq_ok.1 hread
    exact ⟨a, rfl, mode, doc, hdoc, hvalue⟩
  constructor
  · intro Allowed room b hb
    obtain ⟨a, rfl, ha⟩ := hreads hb
    rw [write]
    exact h.inRange ha
  · intro Allowed room b hb mode room' enough
    obtain ⟨a, rfl, ha⟩ := hreads hb
    rw [read, write]
    refine ((h.returns ha mode enough).map wrap).congr ⟨fun fits => ⟨a, rfl, fits⟩, ?_⟩
    rintro ⟨a', heq, fits⟩
    rwa [injective heq]
  · rintro room b enough ⟨a, rfl, fits⟩
    rw [write]
    exact h.whole enough fits
  · intro room b enough hb
    obtain ⟨a, rfl, ha⟩ := hreads hb
    exact ⟨a, rfl, h.plain enough ha⟩

/-- Whether a payload is of a kind, and its conditions fit. -/
def NodeBody.Fits (kind : NodeKind) (room : Nat) (body : NodeBody) : Prop :=
  body.kind = kind ∧ ∀ c ∈ body.conditions, c.value.Restorable (room - 4)

theorem NodeBody.payloadCodec_lawful (kind : NodeKind) :
    (payloadCodec kind).Lawful (need + 4) (NodeBody.Fits kind) := by
  cases kind with
  | trigger =>
    refine (Trigger.codec_lawful.wrap NodeBody.trigger (fun _ _ h => by cases h; rfl) (fun _ _ => rfl)
      fun _ => rfl).congr fun room body => ?_
    cases body <;> simp [NodeBody.Fits, NodeBody.kind, conditions]
  | switch =>
    refine (Branch.listCodec_lawful.wrap NodeBody.switch (fun _ _ h => by cases h; rfl) (fun _ _ => rfl)
      fun _ => rfl).congr fun room body => ?_
    cases body <;> simp [NodeBody.Fits, NodeBody.kind, conditions]
  | enroll =>
    refine (Enrollment.codec_lawful.wrap NodeBody.enroll (fun _ _ h => by cases h; rfl) (fun _ _ => rfl)
      fun _ => rfl).congr fun room body => ?_
    cases body <;> simp [NodeBody.Fits, NodeBody.kind, conditions]
  | wait =>
    refine (Wait.codec_lawful.wrap NodeBody.wait (fun _ _ h => by cases h; rfl) (fun _ _ => rfl)
      fun _ => rfl).congr fun room body => ?_
    cases body <;> simp [NodeBody.Fits, NodeBody.kind, conditions]

end

namespace NodeBody

/-- A payload is of the kind that it is read by. -/
theorem kind_of_reads {kind : NodeKind} {Allowed : String → Prop} {room : Nat} {body : NodeBody}
    (h : (payloadCodec kind).Reads Allowed room body) : body.kind = kind := by
  obtain ⟨mode, doc, -, hread⟩ := h
  cases kind with
  | trigger | switch | enroll | wait =>
    obtain ⟨_, -, rfl⟩ := map_eq_ok.1 hread
    rfl

/-- Whether a payload that waits for its kind stands in the document, and a complete body is read
from it. -/
def Draft.Sound (Allowed : String → Prop) (room : Nat) : Draft → Prop
  | payloadOnly doc => doc.Within Allowed room
  | complete body => ∃ kind, (payloadCodec kind).Reads Allowed room body
  | _ => True

variable {Allowed : String → Prop} {room : Nat} {mode : Reading}

theorem Draft.Sound.put {draft next : Draft} (h : draft.Sound Allowed room) {name : String} {doc : Doc}
    (hdoc : doc.Within Allowed room) (hput : draft.put mode name doc = .ok next) :
    next.Sound Allowed room := by
  unfold Draft.put at hput
  split_ifs at hput
  · split at hput
    · obtain ⟨kind, -, hput⟩ := bind_eq_ok.1 hput
      cases hput
      trivial
    next held =>
      obtain ⟨kind, -, hput⟩ := bind_eq_ok.1 hput
      obtain ⟨body, hbody, hput⟩ := bind_eq_ok.1 hput
      cases hput
      exact ⟨kind, .held, held, h, hbody⟩
    · cases hput
  · split at hput
    · obtain ⟨_, -, hput⟩ := bind_eq_ok.1 hput
      cases hput
      exact hdoc
    next kind =>
      obtain ⟨body, hbody, hput⟩ := bind_eq_ok.1 hput
      cases hput
      exact ⟨kind, mode, doc, hdoc, hbody⟩
    · cases hput
  · cases hput
    exact h

theorem readEntries_sound {entries : List Doc.Entry} (hentries : ∀ e ∈ entries, e.2.Within Allowed room)
    {draft next : Draft} (h : draft.Sound Allowed room)
    (hread : readEntries mode draft entries = .ok next) : next.Sound Allowed room := by
  induction entries generalizing draft with
  | nil =>
    cases hread
    exact h
  | cons e rest ih =>
    obtain ⟨name, doc⟩ := e
    cases name with
    | error fault => cases hread
    | ok name =>
      obtain ⟨after, hafter, hread⟩ := bind_eq_ok.1 hread
      exact ih (fun f hf => hentries f (List.mem_cons_of_mem _ hf))
        (h.put (hentries _ List.mem_cons_self) hafter) hread

end NodeBody

namespace Node

/-- Whether a position is read from the document, and the other entries stand in it. -/
structure Draft.Sound (Allowed : String → Prop) (room : Nat) (draft : Draft) : Prop where
  position : ∀ p ∈ draft.position, Position.codec.Reads Allowed room p
  others : ∀ e ∈ draft.others, e.2.Within Allowed room

variable {Allowed : String → Prop} {room : Nat} {mode : Reading}

theorem Draft.Sound.put {draft next : Draft} (h : draft.Sound Allowed room) {name : String} {doc : Doc}
    (hdoc : doc.Within Allowed room) (hput : draft.put mode name doc = .ok next) :
    next.Sound Allowed room := by
  simp only [Draft.put] at hput
  split_ifs at hput
  · obtain ⟨id, -, hput⟩ := bind_eq_ok.1 hput
    cases hput
    exact ⟨h.position, h.others⟩
  · obtain ⟨p, hp, hput⟩ := bind_eq_ok.1 hput
    cases hput
    refine ⟨?_, h.others⟩
    rintro _ ⟨⟩
    exact ⟨mode, doc, hdoc, hp⟩
  · obtain ⟨_, -, hput⟩ := bind_eq_ok.1 hput
    cases hput
    exact ⟨h.position, List.forall_mem_cons.2 ⟨hdoc, h.others⟩⟩

theorem readEntries_sound {entries : List Doc.Entry} (hentries : ∀ e ∈ entries, e.2.Within Allowed room)
    {draft next : Draft} (h : draft.Sound Allowed room)
    (hread : readEntries mode draft entries = .ok next) : next.Sound Allowed room := by
  induction entries generalizing draft with
  | nil =>
    cases hread
    exact h
  | cons e rest ih =>
    obtain ⟨name, doc⟩ := e
    cases name with
    | error fault => cases hread
    | ok name =>
      obtain ⟨after, hafter, hread⟩ := bind_eq_ok.1 hread
      exact ih (fun f hf => hentries f (List.mem_cons_of_mem _ hf))
        (h.put (hentries _ List.mem_cons_self) hafter) hread

/-- A node is read from an object, its position and its payload from entries of this object. -/
theorem codec_reads {n : Node} (h : Node.codec.Reads Allowed room n) :
    ∃ room', room = room' + 1 ∧
      (n.position = .origin ∨ Position.codec.Reads Allowed room' n.position) ∧
      (NodeBody.payloadCodec n.body.kind).Reads Allowed room' n.body := by
  obtain ⟨mode, doc, hdoc, hread⟩ := h
  cases hdoc with
  | @object room entries unclosed _ entries_within =>
    obtain ⟨draft, hdraft, hread⟩ := bind_eq_ok.1 hread
    obtain ⟨_, _, hread⟩ := bind_eq_ok.1 hread
    have hsound := readEntries_sound entries_within ⟨by simp, by simp⟩ hdraft
    split at hread
    · cases hread
    next id _ =>
      obtain ⟨bodyDraft, hbodyDraft, hread⟩ := bind_eq_ok.1 hread
      obtain ⟨body, hbody, hread⟩ := bind_eq_ok.1 hread
      cases hread
      have hnothing : NodeBody.Draft.nothing.Sound Allowed room := trivial
      have hbodySound := NodeBody.readEntries_sound
        (fun e he => hsound.others e (List.mem_reverse.1 he)) hnothing hbodyDraft
      cases bodyDraft with
      | complete body' =>
        cases hbody
        obtain ⟨kind, hreads⟩ := hbodySound
        obtain rfl := NodeBody.kind_of_reads hreads
        refine ⟨room, rfl, ?_, hreads⟩
        cases hposition : draft.position with
        | none => exact .inl rfl
        | some p => exact .inr (hsound.position p hposition)
      | _ => cases hbody
  | _ => cases hread

/-- How a written node is read: its payload is held back as a whole, and then read by its kind. -/
theorem read_write {n : Node} {room : Nat} (mode : Reading)
    (hposition : Position.codec.read mode ((Position.codec.write n.position).doc room) = .ok n.position) :
    Node.codec.read mode ((Node.codec.write n).doc (room + 1)) =
      ((n.body.writePayload.doc room).hold >>= fun _ =>
        (NodeBody.payloadCodec n.body.kind).read .held (n.body.writePayload.doc room) >>= fun body =>
          .ok ⟨n.id, n.position, body⟩) := by
  have hkind : ∀ k : NodeKind, NodeKind.codec.read .held (.string k.name) = .ok k := by
    intro k
    cases k <;> rfl
  show Node.codec.read mode (.object [(.ok "id", .string n.id),
    (.ok "position", (Position.codec.write n.position).doc room), (.ok "type", .string n.body.kind.name),
    (.ok "data", n.body.writePayload.doc room)] none) = _
  generalize n.body.writePayload.doc room = payload
  generalize (Position.codec.write n.position).doc room = position at hposition
  have hidPut : Draft.put ⟨none, none, []⟩ mode "id" (.string n.id) = .ok ⟨some n.id, none, []⟩ := rfl
  have hpositionPut : Draft.put ⟨some n.id, none, []⟩ mode "position" position =
      .ok ⟨some n.id, some n.position, []⟩ := by
    simp [Draft.put, hposition, bind, Except.bind, pure, Except.pure]
  have htypePut : Draft.put ⟨some n.id, some n.position, []⟩ mode "type" (.string n.body.kind.name) =
      .ok ⟨some n.id, some n.position, [(.ok "type", .string n.body.kind.name)]⟩ := rfl
  have hdataPut : ∀ others, Draft.put ⟨some n.id, some n.position, others⟩ mode "data" payload =
      payload.hold >>= fun _ => .ok ⟨some n.id, some n.position, (.ok "data", payload) :: others⟩ :=
    fun _ => rfl
  have hbodyType : NodeBody.Draft.put .nothing .held "type" (.string n.body.kind.name) =
      .ok (.kindOnly n.body.kind) := by
    show (NodeKind.codec.read .held (.string n.body.kind.name) >>= fun kind =>
      .ok (NodeBody.Draft.kindOnly kind)) = _
    rw [hkind]
    rfl
  have hbodyData : NodeBody.Draft.put (.kindOnly n.body.kind) .held "data" payload =
      (NodeBody.payloadCodec n.body.kind).read .held payload >>= fun body => .ok (.complete body) := by
    rfl
  simp only [Node.codec, readEntries, hidPut, hpositionPut, htypePut, hdataPut, bind, Except.bind]
  cases payload.hold with
  | error problem => rfl
  | ok _ =>
    simp only [Doc.close, List.reverse_cons, List.reverse_nil, List.nil_append, List.cons_append,
      NodeBody.readEntries, hbodyType, hbodyData, bind, Except.bind]
    cases (NodeBody.payloadCodec n.body.kind).read .held payload <;> rfl

/-- Whether the conditions of a node fit. -/
def Fits (room : Nat) (n : Node) : Prop :=
  ∀ c ∈ n.body.conditions, c.value.Restorable (room - 5)

theorem position_reads {n : Node} (h : Node.codec.Reads Allowed room n) :
    ∃ Allowed' room', Position.codec.Reads Allowed' room' n.position := by
  obtain ⟨room, rfl, horigin | hread, -⟩ := codec_reads h
  · rw [horigin]
    have hzero : Doc.Within (fun _ => True) 0 (.number (.float (.zero false))) := .number trivial
    refine ⟨fun _ => True, 1, .direct, .object [(.ok "x", .number (.float (.zero false))),
      (.ok "y", .number (.float (.zero false)))] none, .object (by simp) ?_, rfl⟩
    exact List.forall_mem_cons.2 ⟨hzero, List.forall_mem_singleton.2 hzero⟩
  · exact ⟨Allowed, room, hread⟩

/-- What holds of the position and of the payload holds of all entries of a node. -/
theorem forall_entries {n : Node} {P : Json → Prop} (string : ∀ s, P (.string s))
    (position : P (Position.codec.write n.position)) (payload : P n.body.writePayload) :
    ∀ e ∈ ("id", Json.string n.id) :: ("position", Position.codec.write n.position) ::
      n.body.writeEntries, P e.2 :=
  List.forall_mem_cons.2 ⟨string _, List.forall_mem_cons.2 ⟨position,
    List.forall_mem_cons.2 ⟨string _, List.forall_mem_singleton.2 payload⟩⟩⟩

theorem codec_lawful {need : Nat} : Node.codec.Lawful (need + 5) Fits where
  inRange h := by
    obtain ⟨_, _, hposition⟩ := position_reads h
    obtain ⟨_, rfl, -, hbody⟩ := codec_reads h
    have hpositions : Position.codec.Lawful (need + 1) fun _ _ => True := Position.codec_lawful
    have hpayloads : ∀ kind, (NodeBody.payloadCodec kind).Lawful (need + 4) (NodeBody.Fits kind) :=
      NodeBody.payloadCodec_lawful
    exact Json.inRange_object (forall_entries (fun _ _ hn => nomatch hn) (hpositions.inRange hposition)
      ((hpayloads _).inRange hbody))
  returns {_ _ n} h mode room' enough := by
    obtain ⟨room', rfl, inside⟩ := Codec.exists_room enough
    obtain ⟨_, _, hposition⟩ := position_reads h
    obtain ⟨_, rfl, -, hbody⟩ := codec_reads h
    have hwritten := Position.codec_lawful.returns hposition mode (show 0 + 1 ≤ room' by omega)
    have hpayload := (NodeBody.payloadCodec_lawful n.body.kind).returns hbody .held inside
    rw [read_write mode (hwritten.1 trivial)]
    refine ((Doc.yields_hold (n.body.writePayload.doc room')).bind (hpayload.bind (.ok n))).congr ?_
    refine ⟨fun h => h.2.1.2, fun fits => ?_⟩
    have hfits : NodeBody.Fits n.body.kind room' n.body := ⟨rfl, fits⟩
    exact ⟨(NodeBody.payloadCodec_lawful n.body.kind).whole inside hfits, hfits, trivial⟩
  whole {room n} enough fits := by
    obtain ⟨room, rfl, inside⟩ := Codec.exists_room enough
    show Doc.fault? ((Json.object (("id", Json.string n.id) ::
      ("position", Position.codec.write n.position) :: n.body.writeEntries)).doc (room + 1)) = none
    rw [Json.doc_object_succ, Doc.fault?, Doc.faultOfEntries?_eq_none]
    · rfl
    · refine forall_entries (P := fun j => (j.doc room).fault? = none) (fun _ => rfl) ?_ ?_
      · exact Position.codec_lawful.whole (show 0 + 1 ≤ room by omega) trivial
      · exact (NodeBody.payloadCodec_lawful n.body.kind).whole inside ⟨rfl, fits⟩
  plain enough h := by
    obtain ⟨room, rfl, -, hbody⟩ := codec_reads h
    exact ((NodeBody.payloadCodec_lawful _).plain (Nat.le_of_succ_le_succ enough) hbody).2

end Node

theorem Flow.codec_lawful {need : Nat} : Flow.codec.Lawful (need + 7) fun room flow =>
    ∀ node ∈ flow.nodes, Node.Fits (room - 2) node :=
  (Codec.Lawful.record (.cons (.required "id" .string) (.cons (.required "orgId" .string)
    (.cons (.required "name" .string) (.cons (.required "status" FlowStatus.codec_lawful)
      (.cons (.defaulted "nodes" (.list Node.codec_lawful) (Codec.Lawful.list_reads_nil Node.codec))
        (.cons (.defaulted "edges" (.list Edge.codec_lawful) (Codec.Lawful.list_reads_nil Edge.codec))
          (.cons (.optional "deletedAt" .timestamp fun _ => by simp [Codec.timestamp]) .done
            (by decide)) (by decide)) (by decide)) (by decide)) (by decide)) (by decide)) (by decide))
    (fun _ => rfl) fun _ => rfl).congr (by simp [Nat.sub_sub])

end Dunning
