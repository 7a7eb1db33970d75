import Dunning.Flow.Basic
import Dunning.Record.Fields
import Dunning.Text.Blank

/-!
# Business events

An event happens in one organization and carries what is known of the invoice
and the contact. Its type is free text, which may or may not name a trigger
type.
-/
namespace Dunning

structure Event where
  orgId : String
  eventType : String
  invoiceId : Option String
  contactId : Option String
  amount : Option Binary64
  daysOverdue : Option Int
  contactTags : Option (List String)
  language : Option String
  deriving DecidableEq, Inhabited

/-- Why a text is not an event. -/
inductive EventProblem where
  | invalid (problem : Problem)
  | missingOrg
  deriving DecidableEq

namespace Event

/-- An event of which nothing but organization and type is known. -/
def bare (orgId eventType : String) : Event :=
  ⟨orgId, eventType, none, none, none, none, none, none⟩

/-- An event of a trigger type. -/
def ofTrigger (orgId : String) (type : TriggerType) : Event := bare orgId type.name

/-- The trigger type that the event type names. -/
def triggerType? (e : Event) : Option TriggerType := TriggerType.ofName? e.eventType

def codec : Codec Event :=
  .record "FlowEventContext"
    (.cons (.required "orgId" .string) <| .cons (.required "eventType" .string) <|
      .cons (.optional "invoiceId" .string) <| .cons (.optional "contactId" .string) <|
      .cons (.optional "amount" .float) <|
      .cons (.optional "daysOverdue" (.integer (-9223372036854775808) 9223372036854775807 "i64")) <|
      .cons (.optional "contactTags" (.list .string)) <|
      .cons (.optional "language" .string) .done)
    (fun (orgId, eventType, invoiceId, contactId, amount, daysOverdue, contactTags, language, ()) =>
      ⟨orgId, eventType, invoiceId, contactId, amount, daysOverdue, contactTags, language⟩)
    (fun e => (e.orgId, e.eventType, e.invoiceId, e.contactId, e.amount, e.daysOverdue,
      e.contactTags, e.language, ()))

/-- Read an event. Its organization must not be blank. -/
def parse (text : String) : Except EventProblem Event := do
  let event ← (codec.parse text).mapError .invalid
  if Text.allBlank event.orgId then .error .missingOrg else return event

end Event

end Dunning
