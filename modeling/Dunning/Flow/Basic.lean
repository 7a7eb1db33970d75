import Dunning.Json.Value
import Dunning.Time.Instant

/-!
# Flows

A flow belongs to an organization and describes what follows a billing event:
triggers start it, switches choose a branch, actions enroll the contact in a
message sequence, and waits delay what comes after them. Edges join the nodes
by their ids.
-/
namespace Dunning

/-- Only active flows receive events. -/
inductive FlowStatus where
  | draft
  | active
  | paused
  deriving DecidableEq, Repr, Inhabited

/-- The business events a trigger can react to. -/
inductive TriggerType where
  | invoiceCreated
  | invoiceOverdue
  | paymentFailed
  | noReplyAfterDays
  deriving DecidableEq, Repr, Inhabited

/-- The comparison of a branch condition. -/
inductive Operator where
  | greater
  | less
  | equals
  | contains
  deriving DecidableEq, Repr, Inhabited

inductive WaitUnit where
  | hours
  | days
  deriving DecidableEq, Repr, Inhabited

inductive NodeKind where
  | trigger
  | switch
  | enroll
  | wait
  deriving DecidableEq, Repr, Inhabited

/-- Where a node is drawn. -/
structure Position where
  x : Binary64
  y : Binary64
  deriving DecidableEq, Inhabited

/-- What narrows a trigger, when filters are enforced. -/
structure TriggerFilters where
  tag : Option String
  language : Option String
  deriving DecidableEq, Inhabited

structure Trigger where
  type : TriggerType
  filters : TriggerFilters
  deriving DecidableEq, Inhabited

/-- A comparison of one field of the event with a literal. -/
structure Condition where
  field : String
  operator : Operator
  value : Json
  deriving Inhabited

structure Branch where
  id : String
  name : String
  condition : Condition
  deriving Inhabited

/-- Enrolling the contact in a message sequence. -/
structure Enrollment where
  sequence : String
  messagePreview : String
  deriving DecidableEq, Inhabited

/-- A delay of a number of units. -/
structure Wait where
  duration : Nat
  unit : WaitUnit
  deriving DecidableEq, Inhabited

/-- What a node does. -/
inductive NodeBody where
  | trigger (trigger : Trigger)
  | switch (branches : List Branch)
  | enroll (enrollment : Enrollment)
  | wait (wait : Wait)
  deriving Inhabited

structure Node where
  id : String
  position : Position
  body : NodeBody
  deriving Inhabited

/-- A connection between two nodes. Leaving a switch, `sourceHandle` names the branch that
continues along it. -/
structure Edge where
  id : String
  source : String
  target : String
  sourceHandle : Option String
  targetHandle : Option String
  deriving DecidableEq, Inhabited

structure Flow where
  id : String
  orgId : String
  name : String
  status : FlowStatus
  nodes : List Node
  edges : List Edge
  deletedAt : Option Instant
  deriving Inhabited

namespace FlowStatus

def name : FlowStatus → String
  | draft => "DRAFT"
  | active => "ACTIVE"
  | paused => "PAUSED"

def all : List FlowStatus := [draft, active, paused]

end FlowStatus

namespace TriggerType

/-- The event type that an event carries. -/
def name : TriggerType → String
  | invoiceCreated => "Invoice Created"
  | invoiceOverdue => "Invoice Overdue"
  | paymentFailed => "Payment Failed"
  | noReplyAfterDays => "No Reply After X Days"

def all : List TriggerType := [invoiceCreated, invoiceOverdue, paymentFailed, noReplyAfterDays]

def ofName? (name : String) : Option TriggerType := all.find? fun t => t.name = name

end TriggerType

namespace Operator

def symbol : Operator → String
  | greater => ">"
  | less => "<"
  | equals => "="
  | contains => "contains"

def all : List Operator := [greater, less, equals, contains]

end Operator

namespace WaitUnit

def name : WaitUnit → String
  | hours => "hours"
  | days => "days"

def all : List WaitUnit := [hours, days]

/-- The length of one unit in hours. -/
def length : WaitUnit → Nat
  | hours => 1
  | days => 24

end WaitUnit

namespace Wait

def totalHours (w : Wait) : Nat := w.duration * w.unit.length

/-- "1 day", "3 hours". -/
def describe (w : Wait) : String :=
  let unit := match w.unit, w.duration with
    | .hours, 1 => "hour"
    | .hours, _ => "hours"
    | .days, 1 => "day"
    | .days, _ => "days"
  toString w.duration ++ " " ++ unit

end Wait

namespace NodeKind

def name : NodeKind → String
  | trigger => "trigger"
  | switch => "switch"
  | enroll => "action-enroll"
  | wait => "utility-wait"

def all : List NodeKind := [trigger, switch, enroll, wait]

end NodeKind

namespace NodeBody

def kind : NodeBody → NodeKind
  | trigger _ => .trigger
  | switch _ => .switch
  | enroll _ => .enroll
  | wait _ => .wait

def isTrigger : NodeBody → Bool
  | trigger _ => true
  | _ => false

end NodeBody

namespace Position

def origin : Position := ⟨.zero false, .zero false⟩

end Position

namespace TriggerFilters

def none : TriggerFilters := ⟨.none, .none⟩

end TriggerFilters

namespace Node

def kind (n : Node) : NodeKind := n.body.kind

/-- A node drawn at the origin. -/
def atOrigin (id : String) (body : NodeBody) : Node := ⟨id, .origin, body⟩

end Node

namespace Edge

/-- An edge without handles. -/
def plain (id source target : String) : Edge := ⟨id, source, target, none, none⟩

/-- An edge that leaves a switch through a branch. -/
def ofBranch (id source branch target : String) : Edge := ⟨id, source, target, some branch, none⟩

end Edge

namespace Flow

/-- Whether the flow receives events. -/
def isLive (f : Flow) : Bool := f.status == .active && f.deletedAt.isNone

/-- The first node with an id. -/
def node? (f : Flow) (id : String) : Option Node := f.nodes.find? fun n => n.id = id

end Flow

end Dunning
