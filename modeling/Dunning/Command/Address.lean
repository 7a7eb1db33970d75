import Dunning.Json.Token

/-!
# Addresses

The records of a data directory are opened by an address, and the name of the
directory stands in it as it is. But in an address a byte may be written by its
code, a question mark starts a query, and some leads have a meaning of their own.
So the address of a data directory need not lead into it.
-/
namespace Dunning.Address

/-- The address of the records of a data directory. -/
def ofDirectory (dataDir : String) : String :=
  "sqlite://" ++ dataDir ++ (if dataDir.endsWith "/" then "" else "/") ++ "ledgerflow.db"

/-- Where an address leads. -/
inductive Target where
  | file (path : String)
  /-- Records that nobody keeps. -/
  | transient
  deriving DecidableEq, Repr

/-- Take a lead away as often as it stands in front. -/
def dropLead (lead text : List Char) : List Char :=
  Nat.repeat (fun t => if lead.isPrefixOf t then t.drop lead.length else t) text.length text

/-- The byte of two hexadecimal digits. -/
def byte? (a b : UInt8) : Option UInt8 := do
  let high ← Json.hexValue (Char.ofNat a.toNat)
  let low ← Json.hexValue (Char.ofNat b.toNat)
  return (high * 16 + low).toUInt8

/-- Replace every `%` that has two hexadecimal digits behind it by the byte of that code. -/
def decodeBytes : List UInt8 → List UInt8
  | [] => []
  | c :: rest =>
      if c = 37 then
        match rest with
        | a :: b :: others =>
            match byte? a b with
            | some byte => byte :: decodeBytes others
            | none => c :: decodeBytes (a :: b :: others)
        | _ => c :: rest
      else c :: decodeBytes rest

/-- The bytes of a text with codes in it. -/
def bytes (text : List Char) : List UInt8 := decodeBytes (String.ofList text).toUTF8.toList

/-- The text of bytes. -/
def text? (bytes : List UInt8) : Option (List Char) :=
  (String.fromUTF8? ⟨bytes.toArray⟩).map String.toList

/-- Whether a query has a setting that concerns the opening of records. All others are passed
over. -/
def setsOption (query : List Char) : Bool :=
  ((String.ofList query).splitOn "&").any fun setting =>
    let name := text? (bytes (setting.toList.takeWhile (· ≠ '=')))
    ["vfs", "mode", "cache"].any fun option => name == some option.toList

/-- What a name denotes that starts with `file:`, from there on. The host, if there is one, must be
this one; the name ends before a `#`, and the path before a query or a byte of zero. -/
def ofFile (name : List Char) : Option Target :=
  let hasHost := ['/', '/'].isPrefixOf name
  let host := if hasHost then (name.drop 2).takeWhile (· ≠ '/') else []
  let path := if hasHost then (name.drop 2).dropWhile (· ≠ '/') else name
  if !(host.isEmpty || host == "localhost".toList) then none
  else
    let whole := path.takeWhile (· ≠ '#')
    let query := (whole.dropWhile (· ≠ '?')).drop 1
    if setsOption query then none
    else do
      let file ← text? ((bytes (whole.takeWhile (· ≠ '?'))).takeWhile (· ≠ 0))
      return if file.isEmpty || file == ":memory:".toList then .transient
        else .file (String.ofList file)

/-- What a name denotes. -/
def ofName (name : List Char) : Option Target :=
  let lead := "file:".toList
  if lead.isPrefixOf name then ofFile (name.drop lead.length) else some (.file (String.ofList name))

/-- Where an address leads. Whatever query it had, the name of the records would be the end of it,
and no query ends so. -/
def target? (address : String) : Option Target :=
  let body := dropLead "sqlite:".toList (dropLead "sqlite://".toList address.toList)
  if body.contains '?' then none
  else do
    let name ← text? (bytes body)
    if name.contains '\x00' then none else ofName name

end Dunning.Address
