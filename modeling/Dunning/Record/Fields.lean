import Dunning.Record.Codec

/-!
# Records

A record is described by its fields in order. It is read from an object, whose
entries may come in any order and among others, or from an array of the field
values in order. It is written as an object.
-/
namespace Dunning

/-- A named field. Without a default it must be present; `omitted` values are not written. -/
structure Field (α : Type) where
  name : String
  codec : Codec α
  default : Option α
  omitted : α → Bool

namespace Field

def required (name : String) (codec : Codec α) : Field α := ⟨name, codec, none, fun _ => false⟩

def defaulted (name : String) (codec : Codec α) (value : α) : Field α :=
  ⟨name, codec, some value, fun _ => false⟩

/-- A value that may be absent or null, and is left out when absent. -/
def optional (name : String) (codec : Codec α) : Field (Option α) :=
  ⟨name, codec.nullable, some none, Option.isNone⟩

end Field

/-- A list of fields: `σ` holds what has been read, `τ` the complete values. -/
inductive Fields : Type → Type → Type 1 where
  | done : Fields Unit Unit
  | cons {α σ τ : Type} (field : Field α) (rest : Fields σ τ) : Fields (Option α × σ) (α × τ)

namespace Fields

def count : Fields σ τ → Nat
  | done => 0
  | cons _ rest => rest.count + 1

def nothing : Fields σ τ → σ
  | done => ()
  | cons _ rest => (none, rest.nothing)

/-- Read the value under a name into its slot; `none` when no field has the name. A second value
is refused before it is read. -/
def put (fields : Fields σ τ) (mode : Reading) (name : String) (doc : Doc) (slots : σ) :
    Except Problem (Option σ) :=
  match fields, slots with
  | done, () => .ok none
  | cons field rest, (slot, others) =>
      if field.name = name then
        if slot.isSome then .error (.duplicateField name)
        else do
          let value ← field.codec.read mode doc
          return some (some value, others)
      else do
        let others ← rest.put mode name doc others
        return others.map fun o => (slot, o)

/-- Take the defaults of missing fields; the first one without a default is reported. -/
def complete (fields : Fields σ τ) (slots : σ) : Except Problem τ :=
  match fields, slots with
  | done, () => .ok ()
  | cons field rest, (slot, others) =>
      match slot.or field.default with
      | none => .error (.missingField field.name)
      | some value => do
          let values ← rest.complete others
          return (value, values)

/-- Read entries into their slots. Names of no field are passed over, but must be sound. -/
def readEntries (fields : Fields σ τ) (mode : Reading) (slots : σ) :
    List Doc.Entry → Except Problem σ
  | [] => .ok slots
  | (.error fault, _) :: _ => .error (.malformed fault)
  | (.ok name, doc) :: rest => do
      let next ← fields.put mode name doc slots
      fields.readEntries mode (next.getD slots) rest

def readObject (fields : Fields σ τ) (mode : Reading) (entries : List Doc.Entry)
    (unclosed : Option Json.Fault) : Except Problem τ := do
  let slots ← fields.readEntries mode fields.nothing entries
  Doc.close unclosed
  fields.complete slots

/-- "1 element", "2 elements". -/
def elements (n : Nat) : String := toString n ++ (if n = 1 then " element" else " elements")

/-- Read values by position, `index` of them being read already. What is left over is returned. -/
def readPositions (fields : Fields σ τ) (mode : Reading) (wanted : String) (index : Nat)
    (items : List Doc) (unclosed : Option Json.Fault) : Except Problem (τ × List Doc) :=
  match fields, items with
  | done, items => .ok ((), items)
  | cons field rest, item :: items => do
      let value ← field.codec.read mode item
      let (values, left) ← rest.readPositions mode wanted (index + 1) items unclosed
      return ((value, values), left)
  | cons field rest, [] => do
      Doc.close unclosed
      match field.default with
      | none => .error (.wrongLength index wanted)
      | some value => do
          let (values, left) ← rest.readPositions mode wanted (index + 1) [] unclosed
          return ((value, values), left)

def readArray (fields : Fields σ τ) (mode : Reading) (title : String) (items : List Doc)
    (unclosed : Option Json.Fault) : Except Problem τ := do
  let wanted := title ++ " with " ++ elements fields.count
  let (values, left) ← fields.readPositions mode wanted 0 items unclosed
  match mode with
  | .direct => do
      if !left.isEmpty then .error (.malformed .trailing)
      Doc.close unclosed
      return values
  | .held =>
      if left.isEmpty then return values
      else .error (.wrongLength items.length (elements fields.count ++ " in sequence"))

/-- The entries of complete values, without those that are left out. -/
def write (fields : Fields σ τ) (values : τ) : List (String × Json) :=
  match fields, values with
  | done, () => []
  | cons field rest, (value, values) =>
      if field.omitted value then rest.write values
      else (field.name, field.codec.write value) :: rest.write values

end Fields

/-- The codec of a record, from the values of its fields and back. -/
def Codec.record (title : String) (fields : Fields σ τ) (make : τ → α) (cut : α → τ) : Codec α where
  read mode doc := match doc with
    | .object entries unclosed => (fields.readObject mode entries unclosed).map make
    | .array items unclosed => (fields.readArray mode ("struct " ++ title) items unclosed).map make
    | d => .error (d.mismatch ("struct " ++ title))
  write a := .object (fields.write (cut a))

end Dunning
