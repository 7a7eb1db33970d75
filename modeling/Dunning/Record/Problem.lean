import Dunning.Json.Document
import Dunning.Number.Layout
import Dunning.Time.Timestamp
import Dunning.Text.Quoted

/-!
# Reading problems

The first fault that a reader meets, by cause. The wording is in one place. The
fault of a malformed text is told by its position only, unless the text was
embedded in another.
-/
namespace Dunning

/-- The kind of value found where another was wanted. -/
inductive Found where
  | null
  | bool (b : Bool)
  | int (i : Int)
  | float (x : Binary64)
  | string (s : String)
  | array
  | object
  deriving DecidableEq

namespace Found

def describe : Found → String
  | null => "null"
  | bool b => "boolean `" ++ (if b then "true" else "false") ++ "`"
  | int i => "integer `" ++ toString i ++ "`"
  | float x => "floating point `" ++ x.text .json ++ "`"
  | string s => "string " ++ Text.quoted s
  | array => "sequence"
  | object => "map"

end Found

inductive Problem where
  | malformed (fault : Json.Fault)
  | missingField (name : String)
  | duplicateField (name : String)
  | unknownVariant (name : String) (known : List String)
  | wrongType (found : Found) (wanted : String)
  | wrongValue (found : Found) (wanted : String)
  | wrongLength (length : Nat) (wanted : String)
  | badTimestamp (cause : TimestampProblem)
  /-- A text that stands for a value cannot be read. -/
  | embedded (cause : Problem)
  deriving DecidableEq

namespace Problem

def named (name : String) : String := "`" ++ name ++ "`"

/-- The alternatives to an unknown name. -/
def alternatives : List String → String
  | [] => "there are no variants"
  | [a] => "expected " ++ named a
  | [a, b] => "expected " ++ named a ++ " or " ++ named b
  | names => "expected one of " ++ String.intercalate ", " (names.map named)

def wording : Problem → String
  | malformed fault => fault.message
  | missingField name => "missing field " ++ named name
  | duplicateField name => "duplicate field " ++ named name
  | unknownVariant name known => "unknown variant " ++ named name ++ ", " ++ alternatives known
  | wrongType found wanted => "invalid type: " ++ found.describe ++ ", expected " ++ wanted
  | wrongValue found wanted => "invalid value: " ++ found.describe ++ ", expected " ++ wanted
  | wrongLength n wanted => "invalid length " ++ toString n ++ ", expected " ++ wanted
  | badTimestamp cause => cause.message
  | embedded cause => cause.wording

def message : Problem → Option String
  | malformed _ => none
  | problem => some problem.wording

end Problem

end Dunning
