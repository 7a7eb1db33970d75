import Dunning.Record.Problem
import Dunning.Json.Printer

/-!
# Codecs

A codec reads a value from a document and writes it as a document. Readers
report the first fault in text order. A document is read directly from its
text, or after it was held back until a tag told its shape. A held document has
been checked as a whole, and its choices and arrays are judged a little
differently.
-/
namespace Dunning

open Json (Fault)

/-- How a document reaches its reader. -/
inductive Reading where
  | direct
  | held
  deriving DecidableEq, Repr

structure Codec (α : Type) where
  read : Reading → Doc → Except Problem α
  write : α → Json

namespace Doc

/-- What a document is, told to a reader that wanted something else. -/
def mismatch (doc : Doc) (wanted : String) : Problem :=
  match doc with
  | .null => .wrongType .null wanted
  | .bool b => .wrongType (.bool b) wanted
  | .number (.int i) => .wrongType (.int i) wanted
  | .number (.float x) => .wrongType (.float x) wanted
  | .string s => .wrongType (.string s) wanted
  | .array _ _ => .wrongType .array wanted
  | .object _ _ => .wrongType .object wanted
  | .deep doc => mismatch doc wanted
  | .flaw fault => .malformed fault

mutual

/-- The first fault of a document that is read as a whole. -/
def fault? : Doc → Option Fault
  | .array items unclosed => (faultOfItems? items).or unclosed
  | .object entries unclosed => (faultOfEntries? entries).or unclosed
  | .deep _ => some .tooDeep
  | .flaw fault => some fault
  | _ => none

def faultOfItems? : List Doc → Option Fault
  | [] => none
  | d :: rest => (fault? d).or (faultOfItems? rest)

def faultOfEntries? : List Entry → Option Fault
  | [] => none
  | (.error fault, _) :: _ => some fault
  | (.ok _, d) :: rest => (fault? d).or (faultOfEntries? rest)

end

/-- Leave a container at its end. -/
def close : Option Fault → Except Problem Unit
  | none => .ok ()
  | some fault => .error (.malformed fault)

/-- Hold a document back: it must be sound as a whole. -/
def hold (doc : Doc) : Except Problem Unit := close doc.fault?

/-- An object with this key in front stands for the value that is written in the text under it. -/
def embeddingKey : String := "$serde_json::private::RawValue"

/-- What must follow the text of an embedded value: the end of the object. -/
def endEmbedding (mode : Reading) (rest : List Entry) (unclosed : Option Fault) :
    Except Problem Unit :=
  match mode with
  | .held =>
      if rest.isEmpty then .ok ()
      else .error (.wrongLength (rest.length + 1) "1 element in map")
  | .direct => match rest, unclosed with
    | [], none => .ok ()
    | [], some .endInObject => .error (.malformed .endInObject)
    | [], some .noObjectComma => .error (.malformed .trailing)
    | _, _ => .error (.malformed .strayComma)

mutual

/-- Read a document as a free value: objects are sorted by key, and of a repeated key the last
value is kept. `embedded` reads the texts that stand for values. -/
def freeWith (embedded : String → Except Problem Json) (mode : Reading) : Doc → Except Problem Json
  | .null => .ok .null
  | .bool b => .ok (.bool b)
  | .number n => .ok (.number n)
  | .string s => .ok (.string s)
  | .array items unclosed => do
      let values ← freeItems embedded mode items
      close unclosed
      return .array values
  | .object entries unclosed =>
      match entries with
      | (.ok key, d) :: rest =>
          if key = embeddingKey then
            match d with
            | .string text => do
                let value ← embedded text
                endEmbedding mode rest unclosed
                return value
            | d => .error (d.mismatch "raw value")
          else do
            let value ← freeWith embedded mode d
            let values ← freeEntries embedded mode [(key, value)] rest
            close unclosed
            return .object values
      | (.error fault, _) :: _ => .error (.malformed fault)
      | [] => do
          close unclosed
          return .object []
  | .deep _ => .error (.malformed .tooDeep)
  | .flaw fault => .error (.malformed fault)

def freeItems (embedded : String → Except Problem Json) (mode : Reading) :
    List Doc → Except Problem (List Json)
  | [] => .ok []
  | d :: rest => do
      let v ← freeWith embedded mode d
      let vs ← freeItems embedded mode rest
      return v :: vs

def freeEntries (embedded : String → Except Problem Json) (mode : Reading)
    (sorted : List (String × Json)) : List Entry → Except Problem (List (String × Json))
  | [] => .ok sorted
  | (.error fault, _) :: _ => .error (.malformed fault)
  | (.ok k, d) :: rest => do
      let v ← freeWith embedded mode d
      freeEntries embedded mode (Json.insert k v sorted) rest

end

/-- Read a text that stands for a value. Texts in texts are shorter and shorter, so that the number
of levels is bounded by the length of the outermost. -/
def readEmbedded : Nat → String → Except Problem Json
  | 0, _ => .error (.embedded (.malformed .tooDeep))
  | levels + 1, text =>
      let (doc, clean) := parse text
      match doc.freeWith (readEmbedded levels) .direct with
      | .error problem => .error (.embedded problem)
      | .ok value => if clean then .ok value else .error (.embedded (.malformed .trailing))

/-- Read a document as a free value. -/
def free (mode : Reading) (doc : Doc) : Except Problem Json :=
  doc.freeWith (fun text => readEmbedded (text.length + 1) text) mode

end Doc

namespace Codec

/-- Read a whole text. -/
def parse (codec : Codec α) (text : String) : Except Problem α := do
  let (doc, clean) := Doc.parse text
  let value ← codec.read .direct doc
  if clean then return value else .error (.malformed .trailing)

/-- Compact text. -/
def text (codec : Codec α) (value : α) : String := (codec.write value).text

def string : Codec String where
  read _ doc := match doc with
    | .string s => .ok s
    | d => .error (d.mismatch "a string")
  write := .string

def bool : Codec Bool where
  read _ doc := match doc with
    | .bool b => .ok b
    | d => .error (d.mismatch "a boolean")
  write := .bool

/-- A float; integers are rounded to the nearest one. -/
def float : Codec Binary64 where
  read _ doc := match doc with
    | .number (.int i) => .ok (.ofInt i)
    | .number (.float x) => .ok x
    | d => .error (d.mismatch "f64")
  write x := .number (.float x)

/-- An integer between bounds. -/
def integer (low high : Int) (wanted : String) : Codec Int where
  read _ doc := match doc with
    | .number (.int i) =>
        if low ≤ i ∧ i ≤ high then .ok i else .error (.wrongValue (.int i) wanted)
    | d => .error (d.mismatch wanted)
  write := .int

/-- A natural number up to a bound. -/
def natural (high : Nat) (wanted : String) : Codec Nat where
  read mode doc := ((integer 0 high wanted).read mode doc).map Int.toNat
  write n := .int n

/-- A count that fits a machine word. -/
def size : Codec Nat := natural 18446744073709551615 "usize"

def timestamp : Codec Instant where
  read _ doc := match doc with
    | .string s => (Timestamp.read s.toList).mapError .badTimestamp
    | d => .error (d.mismatch "an RFC 3339 formatted date and time string")
  write t := .string t.text

/-- A free value. -/
def free : Codec Json where
  read mode doc := doc.free mode
  write := id

/-- A value or null. -/
def nullable (codec : Codec α) : Codec (Option α) where
  read mode doc := match doc with
    | .null => .ok none
    | d => (codec.read mode d).map some
  write v := match v with
    | none => .null
    | some a => codec.write a

/-- Read items in order. -/
def readItems (codec : Codec α) (mode : Reading) : List Doc → Except Problem (List α)
  | [] => .ok []
  | d :: rest => do
      let v ← codec.read mode d
      let vs ← readItems codec mode rest
      return v :: vs

def list (codec : Codec α) : Codec (List α) where
  read mode doc := match doc with
    | .array items unclosed => do
        let values ← readItems codec mode items
        Doc.close unclosed
        return values
    | d => .error (d.mismatch "a sequence")
  write vs := .array (vs.map codec.write)

/-- The choice of a name. -/
def choose (names : List (String × α)) (name : String) : Except Problem α :=
  match names.lookup name with
  | some a => .ok a
  | none => .error (.unknownVariant name (names.map Prod.fst))

/-- A tag in front of what it names: one of several names. -/
def readTag (names : List (String × α)) : Doc → Except Problem α
  | .string s => choose names s
  | d => .error (d.mismatch "variant identifier")

/-- One of several names, also written as an object with the name as its only key and null under
it. Read directly, any other shape is malformed. -/
def choice (names : List (String × α)) (nameOf : α → String) : Codec α where
  read mode doc := match mode, doc with
    | _, .string s => choose names s
    | .direct, .object ((.ok key, value) :: rest) unclosed => do
        let a ← choose names key
        match value with
        | .null =>
            if rest.isEmpty ∧ unclosed.isNone then return a else .error (.malformed .noValue)
        | d => .error (d.mismatch "unit")
    | .direct, _ => .error (.malformed .noValue)
    | .held, .object [(.ok key, value)] _ => do
        let a ← choose names key
        match value with
        | .null => return a
        | .object [] _ => return a
        | d => .error (d.mismatch "unit")
    | .held, .object _ _ => .error (.wrongValue .object "map with a single key")
    | .held, d => .error (d.mismatch "string or map")
  write a := .string (nameOf a)

end Codec

end Dunning
