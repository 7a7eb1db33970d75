import Dunning.Event
import Dunning.Number.Layout
import Dunning.Json.Printer
import Dunning.Text.LowerCase

/-!
# Branch conditions

A condition reads one field of the event and compares it with a literal. An
absent field matches nothing. Orders need numbers on both sides; equality
compares numbers where it can and text elsewhere. A tag list contains a text
when one of its tags does, whatever the case of their letters.
-/
namespace Dunning

/-- The value of a field of an event. -/
inductive FieldValue where
  | number (x : Binary64)
  | tags (tags : List String)
  deriving DecidableEq

namespace FieldValue

def text : FieldValue → String
  | number x => x.text .plain
  | tags names => String.intercalate "," names

end FieldValue

namespace Event

def field? (event : Event) (name : String) : Option FieldValue :=
  if name = "amount" then event.amount.map .number
  else if name = "days_overdue" then event.daysOverdue.map fun d => .number (.ofInt d)
  else if name = "tag" then event.contactTags.map .tags
  else none

end Event

namespace Condition

/-- The literal as text: a string is its own text, and null is empty. -/
def valueText (c : Condition) : String :=
  match c.value with
  | .string s => s
  | .null => ""
  | j => j.text

/-- The number that a text stands for, blanks around it left aside. -/
def number? (text : String) : Option Binary64 := Binary64.read? (Text.trim text.toList)

/-- Compare two texts, numerically where both are numbers. -/
def compare (operator : Operator) (actual target : String) : Bool :=
  match operator, number? actual, number? target with
  | .greater, some a, some b => b.less a
  | .less, some a, some b => a.less b
  | .equals, some a, some b => a.same b
  | .equals, _, _ => actual == target
  | .contains, _, _ => Text.contains target.toList actual.toList
  | _, _, _ => false

/-- Whether one of the tags contains a text, in lower case. -/
def anyTagContains (tags : List String) (target : String) : Bool :=
  tags.any fun tag => Text.contains (Text.lower target.toList) (Text.lower tag.toList)

/-- Whether the event meets the condition. -/
def holds (c : Condition) (event : Event) : Bool :=
  match event.field? c.field with
  | none => false
  | some (.tags tags) =>
      if c.operator = .contains then anyTagContains tags c.valueText
      else compare c.operator (FieldValue.tags tags).text c.valueText
  | some actual => compare c.operator actual.text c.valueText

/-- The condition with the value that it was checked against. -/
def describe (c : Condition) (event : Event) : String :=
  let actual := match event.field? c.field with
    | some value => value.text
    | none => "missing"
  c.field ++ " " ++ c.operator.symbol ++ " " ++ c.valueText ++ " (actual: " ++ actual ++ ")"

end Condition

end Dunning
