import Dunning.Number.Literal

/-!
# Document values

A document value is a tree of scalars, arrays and objects. Objects keep their
entries in writing order. Free objects, which no record describes, are kept
sorted by key and without repeated keys.
-/
namespace Dunning

inductive Json where
  | null
  | bool (b : Bool)
  | number (n : Number)
  | string (s : String)
  | array (items : List Json)
  | object (entries : List (String × Json))
  deriving Inhabited

namespace Json

/-- Put a value under a key into entries sorted by key; a value already there is replaced. -/
def insert (key : String) (value : Json) : List (String × Json) → List (String × Json)
  | [] => [(key, value)]
  | (k, v) :: rest =>
      if key < k then (key, value) :: (k, v) :: rest
      else if key = k then (key, value) :: rest
      else (k, v) :: insert key value rest

/-- A whole number. -/
def int (i : Int) : Json := .number (.int i)

end Json

end Dunning
