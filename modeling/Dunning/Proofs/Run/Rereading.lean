import Dunning.Proofs.Json.Floats
import Dunning.Proofs.Run.ReadBack

/-!
# Events that are read from their own texts

The text of an event is read as this event, but for the amount: the float that is read from the
decimal of the amount need not be the amount. It is never refused, so that an event is always read.
-/
namespace Dunning

namespace Doc

/-- The document of a value that may be absent. -/
def optional {α : Type} (doc : α → Doc) : Option α → Doc
  | none => .null
  | some a => doc a

theorem read_optional {α : Type} {codec : Codec α} {doc : α → Doc} (mode : Reading) {value : Option α}
    (h : ∀ a ∈ value, doc a ≠ .null ∧ codec.read mode (doc a) = .ok a) :
    codec.nullable.read mode (optional doc value) = .ok value := by
  cases value with
  | none => rfl
  | some a =>
    obtain ⟨hne, hread⟩ := h a rfl
    simp only [optional, Codec.nullable, hread]
    rfl

theorem within_optional {α : Type} {doc : α → Doc} {Allowed : String → Prop} {room : Nat}
    {value : Option α} (h : ∀ a ∈ value, (doc a).Within Allowed room) :
    (optional doc value).Within Allowed room := by
  cases value with
  | none => exact .null
  | some a => exact h a rfl

end Doc

theorem Codec.spells_nullable {α : Type} {codec : Codec α} {value : Option α}
    (h : ∀ a ∈ value, Json.Spells (codec.write a).chars (codec.write a).tokens) :
    Json.Spells (codec.nullable.write value).chars (codec.nullable.write value).tokens := by
  cases value with
  | none => exact fun _ _ => rfl
  | some a => exact h a rfl

/-- Whether the text of some values of a record spells others. -/
def Fields.Spells {σ τ : Type} (fields : Fields σ τ) (values values' : τ) : Prop :=
  List.Forall₂ Json.SpellsEntry (fields.write values) (fields.write values')

namespace Fields.Spells

theorem done : Fields.done.Spells () () := .nil

theorem cons {α σ τ : Type} {field : Field α} {fields : Fields σ τ} {value value' : α}
    {others others' : τ} (omitted : field.omitted value = field.omitted value')
    (spells : Json.Spells (field.codec.write value).chars (field.codec.write value').tokens)
    (rest : fields.Spells others others') :
    (Fields.cons field fields).Spells (value, others) (value', others') := by
  simp only [Spells, write, omitted]
  split_ifs
  · exact rest
  · exact .cons ⟨rfl, spells⟩ rest

end Fields.Spells

namespace Event

/-- Whether the day count of an event is of 64 bits. -/
def Typed (event : Event) : Prop :=
  ∀ d ∈ event.daysOverdue, -9223372036854775808 ≤ d ∧ d ≤ 9223372036854775807

/-- The array of the values of an event. -/
def positions (event : Event) : List Doc :=
  [.string event.orgId, .string event.eventType, Doc.optional .string event.invoiceId,
    Doc.optional .string event.contactId, Doc.optional (fun x => .number (.float x)) event.amount,
    Doc.optional (fun d => .number (.int d)) event.daysOverdue,
    Doc.optional (fun tags => .array (tags.map .string) none) event.contactTags,
    Doc.optional .string event.language]

theorem readItems_string (mode : Reading) (tags : List String) :
    Codec.string.readItems mode (tags.map .string) = .ok tags := by
  induction tags with
  | nil => rfl
  | cons tag rest ih => rw [List.map_cons, Codec.readItems, ih]; rfl

/-- Every event is read from some document. -/
theorem reads {event : Event} (typed : event.Typed) :
    Event.codec.Reads (fun _ => True) Doc.maxDepth event := by
  refine ⟨.direct, .array event.positions none, .array ?_, ?_⟩
  · have hname : ∀ o, (Doc.optional .string o).Within (fun _ => True) 126 :=
      fun o => Doc.within_optional fun _ _ => .string
    have hdays : (Doc.optional (fun d => .number (.int d)) event.daysOverdue).Within (fun _ => True) 126 := by
      refine Doc.within_optional fun d hd => .number ?_
      obtain ⟨hlow, hhigh⟩ := typed d hd
      exact ⟨hlow, by omega⟩
    have htags : (Doc.optional (fun tags => .array (tags.map .string) none) event.contactTags).Within
        (fun _ => True) 126 := by
      refine Doc.within_optional fun tags _ => .array fun d hd => ?_
      obtain ⟨tag, -, rfl⟩ := List.mem_map.1 hd
      exact .string
    simp only [positions, List.forall_mem_cons, List.not_mem_nil, false_implies, implies_true, and_true]
    exact ⟨.string, .string, hname _, hname _, Doc.within_optional fun _ _ => .number trivial, hdays,
      htags, hname _⟩
  · have hstring : ∀ s : String, Codec.string.read .direct (.string s) = .ok s := fun _ => rfl
    have hname : ∀ o, Codec.string.nullable.read .direct (Doc.optional .string o) = .ok o :=
      fun o => Doc.read_optional .direct fun s _ => ⟨by simp, rfl⟩
    have hamount : Codec.float.nullable.read .direct
        (Doc.optional (fun x => .number (.float x)) event.amount) = .ok event.amount :=
      Doc.read_optional .direct fun x _ => ⟨by simp, rfl⟩
    have hdays : (Codec.integer (-9223372036854775808) 9223372036854775807 "i64").nullable.read .direct
        (Doc.optional (fun d => .number (.int d)) event.daysOverdue) = .ok event.daysOverdue :=
      Doc.read_optional .direct fun d hd => ⟨by simp, if_pos (typed d hd)⟩
    have htags : Codec.string.list.nullable.read .direct
        (Doc.optional (fun tags => .array (tags.map .string) none) event.contactTags) =
          .ok event.contactTags :=
      Doc.read_optional .direct fun tags _ => ⟨by simp, by
        simp only [Codec.list, readItems_string]
        rfl⟩
    simp only [Event.codec, Codec.record, positions, Fields.readArray, Fields.readPositions,
      Field.required, Field.optional, hstring, hname, hamount, hdays, htags]
    rfl

/-- The text of an event spells an event that differs from it in the amount at most. -/
theorem exists_spells {event : Event} (typed : event.Typed) : ∃ amount,
    Json.Spells (Event.codec.write event).chars
      (Event.codec.write { event with amount := amount }).tokens := by
  have hstring : ∀ s, Json.Spells (Codec.string.write s).chars (Codec.string.write s).tokens :=
    fun s rest _ => Json.tokens_quoted s rest
  have hname : ∀ o, Json.Spells (Codec.string.nullable.write o).chars
      (Codec.string.nullable.write o).tokens :=
    fun _ => Codec.spells_nullable fun s _ => hstring s
  have hdays : Json.Spells
      ((Codec.integer (-9223372036854775808) 9223372036854775807 "i64").nullable.write
        event.daysOverdue).chars
      ((Codec.integer (-9223372036854775808) 9223372036854775807 "i64").nullable.write
        event.daysOverdue).tokens := by
    refine Codec.spells_nullable fun d hd => ?_
    obtain ⟨hlow, hhigh⟩ := typed d hd
    exact (Json.numeral_int ⟨hlow, by omega⟩).spells
  have htags : Json.Spells (Codec.string.list.nullable.write event.contactTags).chars
      (Codec.string.list.nullable.write event.contactTags).tokens := by
    refine Codec.spells_nullable fun tags _ => Json.Spells.enclose (Json.spells_items ?_) rfl rfl (by decide)
    intro j hj
    obtain ⟨tag, -, rfl⟩ := List.mem_map.1 hj
    exact hstring tag
  obtain ⟨amount, hnone, hamount⟩ : ∃ amount, event.amount.isNone = amount.isNone ∧
      Json.Spells (Codec.float.nullable.write event.amount).chars
        (Codec.float.nullable.write amount).tokens := by
    cases event.amount with
    | none => exact ⟨none, rfl, Codec.spells_nullable fun _ h => nomatch h⟩
    | some x =>
      obtain ⟨y, hy⟩ := Json.exists_numeral_float x
      exact ⟨some y, rfl, hy.spells⟩
  refine ⟨amount, Json.spells_object (?_ : Fields.Spells _ _ _)⟩
  exact .cons rfl (hstring _) <| .cons rfl (hstring _) <| .cons rfl (hname _) <| .cons rfl (hname _) <|
    .cons hnone hamount <| .cons rfl hdays <| .cons rfl htags <| .cons rfl (hname _) .done

/-- The text of an event is read as an event that differs from it in the amount at most. -/
theorem exists_parse {event : Event} (typed : event.Typed) : ∃ amount,
    Event.codec.parse (Event.codec.text event) = .ok { event with amount := amount } := by
  obtain ⟨amount, hspells⟩ := exists_spells typed
  have typed' : ({ event with amount := amount } : Event).Typed := typed
  have htext : Json.Spells (Event.codec.text event).toList
      (Event.codec.write { event with amount := amount }).tokens := by
    rwa [Codec.text, Json.text, String.toList_ofList]
  have hread := (Event.codec_lawful.returns (reads typed') .direct (show 0 + 2 ≤ Doc.maxDepth by decide)).1 trivial
  refine ⟨amount, Codec.parse_eq_ok_iff.2 ?_⟩
  rw [Doc.parse_of_spells htext]
  exact ⟨rfl, hread⟩

/-- The event that is read from the text of an event. -/
def reread (event : Event) : Option Event := (Event.codec.parse (Event.codec.text event)).toOption

theorem reread_eq_some_iff {event told : Event} :
    event.reread = some told ↔ Event.codec.parse (Event.codec.text event) = .ok told := by
  unfold reread
  cases Event.codec.parse (Event.codec.text event) <;> simp [Except.toOption]

end Event

end Dunning
