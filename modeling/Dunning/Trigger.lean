import Dunning.Event
import Dunning.Text.LowerCase

/-!
# Trigger matching

A trigger matches an event of its type. When filters are enforced, a tag filter
must also equal one of the contact's tags and a language filter the event's
language, whatever the case of their Latin letters. A blank filter admits all.
-/
namespace Dunning

/-- Whether trigger filters are enforced. -/
structure Matcher where
  enforceFilters : Bool
  deriving DecidableEq, Repr, Inhabited

namespace TriggerFilters

/-- Whether a filter admits one of the candidates. -/
def admits (filter : Option String) (candidates : List String) : Bool :=
  match filter.map fun f => Text.trim f.toList with
  | .none => true
  | .some [] => true
  | .some wanted => candidates.any fun c => Text.sameLatin c.toList wanted

def admitsEvent (f : TriggerFilters) (event : Event) : Bool :=
  admits f.tag (event.contactTags.getD []) && admits f.language event.language.toList

end TriggerFilters

namespace Matcher

def accepts (m : Matcher) (trigger : Trigger) (event : Event) : Bool :=
  trigger.type.name == event.eventType && (!m.enforceFilters || trigger.filters.admitsEvent event)

/-- Whether a node is a trigger that matches the event. -/
def acceptsNode (m : Matcher) (event : Event) (node : Node) : Bool :=
  match node.body with
  | .trigger trigger => m.accepts trigger event
  | _ => false

/-- The triggers of a flow that match the event, in node order. -/
def matching (m : Matcher) (flow : Flow) (event : Event) : List Node :=
  flow.nodes.filter (m.acceptsNode event)

def anyMatching (m : Matcher) (flow : Flow) (event : Event) : Bool :=
  !(m.matching flow event).isEmpty

/-- The live flows of the event's organization that have a matching trigger. -/
def select (m : Matcher) (flows : List Flow) (event : Event) : List Flow :=
  flows.filter fun f => f.orgId == event.orgId && f.isLive && m.anyMatching f event

end Matcher

end Dunning
