import Dunning.Number.Literal
import Dunning.Json.Fault

/-!
# Document tokens

The text of a document is cut into tokens by one transition for each character.
After a token that cannot be completed nothing is read.
-/
namespace Dunning.Json

/-- A string whose escapes do not pair up to characters, and a number past the range of floats,
are complete tokens without a value. -/
inductive Token where
  | openArray
  | closeArray
  | openObject
  | closeObject
  | comma
  | colon
  | null
  | bool (b : Bool)
  /-- A number, if it is within the range of floats. -/
  | number (value : Option Number)
  | string (value : Except Fault String)
  /-- A word or a number that breaks. -/
  | broken (fault : Fault)
  /-- A character that starts no token, or what follows a string that breaks. -/
  | stray
  | endOfText

/-! ## Strings -/

def isHighHalf (u : Nat) : Bool := 0xD800 ≤ u && u ≤ 0xDBFF

def isLowHalf (u : Nat) : Bool := 0xDC00 ≤ u && u ≤ 0xDFFF

/-- What has been read of a string. The characters are in reverse; `high` is the first half of a
pair whose second half must come next; after a fault only the end of the string is looked for. -/
structure StringDraft where
  chars : List Char
  high : Option Nat
  fault : Option Fault
  deriving DecidableEq, Repr

namespace StringDraft

def empty : StringDraft := ⟨[], none, none⟩

/-- Note a fault, unless there was one before. -/
def fail (d : StringDraft) (fault : Fault) : StringDraft :=
  { d with high := none, fault := d.fault.or (some fault) }

/-- A character that is not written by its code. -/
def plain (d : StringDraft) (c : Char) : StringDraft :=
  if d.high.isSome then d.fail .openHalf else { d with chars := c :: d.chars }

/-- A code, which may be half of a pair. -/
def code (d : StringDraft) (u : Nat) : StringDraft :=
  match d.high with
  | some h =>
      if isLowHalf u then
        { d with chars := Char.ofNat (0x10000 + (h - 0xD800) * 0x400 + (u - 0xDC00)) :: d.chars
                 high := none }
      else d.fail .loneHalf
  | none =>
      if isLowHalf u then d.fail .loneHalf
      else if isHighHalf u then { d with high := if d.fault.isSome then none else some u }
      else { d with chars := Char.ofNat u :: d.chars }

/-- The string, once it is closed. -/
def close (d : StringDraft) : Except Fault String :=
  match (if d.high.isSome then d.fail .openHalf else d).fault with
  | some fault => .error fault
  | none => .ok (String.ofList d.chars.reverse)

/-- The fault of a string that breaks: the first one of all. -/
def broken (d : StringDraft) (fault : Fault) : Token := .string (.error (d.fault.getD fault))

end StringDraft

/-- The character that a one-letter escape stands for. -/
def shortEscape : Char → Option Char
  | '"' => some '"'
  | '\\' => some '\\'
  | '/' => some '/'
  | 'b' => some '\x08'
  | 'f' => some '\x0c'
  | 'n' => some '\n'
  | 'r' => some '\r'
  | 't' => some '\t'
  | _ => none

def hexValue (c : Char) : Option Nat :=
  if '0' ≤ c ∧ c ≤ '9' then some (c.toNat - 48)
  else if 'a' ≤ c ∧ c ≤ 'f' then some (c.toNat - 87)
  else if 'A' ≤ c ∧ c ≤ 'F' then some (c.toNat - 55)
  else none

/-! ## Numbers -/

/-- The part of a number that is being read. -/
inductive NumberPart where
  /-- After the minus sign. -/
  | sign
  /-- After a first digit zero, which no digit may follow. -/
  | leadingZero
  | whole
  | point
  | fraction
  | mark
  | markSign
  | exponent
  deriving DecidableEq, Repr

/-- The digits read so far, each list in reverse. -/
structure NumberDraft where
  part : NumberPart
  negative : Bool
  whole : List Nat
  fraction : List Nat
  exponentNegative : Bool
  exponent : List Nat
  deriving DecidableEq, Repr

namespace NumberDraft

def start (c : Char) : NumberDraft :=
  if c = '-' then ⟨.sign, true, [], [], false, []⟩
  else ⟨if c = '0' then .leadingZero else .whole, false, [c.toNat - 48], [], false, []⟩

/-- Whether the number may end here. -/
def complete (d : NumberDraft) : Bool :=
  d.part == .leadingZero || d.part == .whole || d.part == .fraction || d.part == .exponent

/-- What a character does to a number: it goes on, it ends before the character, or it breaks. -/
inductive Outcome where
  | more (d : NumberDraft)
  | ended
  | failed

def step (d : NumberDraft) (c : Char) : Outcome :=
  let digit := c.toNat - 48
  let other : Outcome := if d.complete then .ended else .failed
  match d.part with
  | .sign =>
      if c = '0' then .more { d with part := .leadingZero, whole := [0] }
      else if c.isDigit then .more { d with part := .whole, whole := [digit] }
      else .failed
  | .leadingZero =>
      if c.isDigit then .failed
      else if c = '.' then .more { d with part := .point }
      else if c = 'e' ∨ c = 'E' then .more { d with part := .mark }
      else other
  | .whole =>
      if c.isDigit then .more { d with whole := digit :: d.whole }
      else if c = '.' then .more { d with part := .point }
      else if c = 'e' ∨ c = 'E' then .more { d with part := .mark }
      else other
  | .point =>
      if c.isDigit then .more { d with part := .fraction, fraction := [digit] } else .failed
  | .fraction =>
      if c.isDigit then .more { d with fraction := digit :: d.fraction }
      else if c = 'e' ∨ c = 'E' then .more { d with part := .mark }
      else other
  | .mark =>
      if c.isDigit then .more { d with part := .exponent, exponent := [digit] }
      else if c = '+' then .more { d with part := .markSign }
      else if c = '-' then .more { d with part := .markSign, exponentNegative := true }
      else .failed
  | .markSign =>
      if c.isDigit then .more { d with part := .exponent, exponent := [digit] } else .failed
  | .exponent =>
      if c.isDigit then .more { d with exponent := digit :: d.exponent } else other

def literal (d : NumberDraft) : NumberLiteral :=
  let e : Int := (d.exponent.reverse.foldl (fun n k => n * 10 + k) 0 : Nat)
  { negative := d.negative
    whole := d.whole.reverse
    fraction := d.fraction.reverse
    exponent := if d.exponent.isEmpty then none else some (if d.exponentNegative then -e else e) }

end NumberDraft

/-! ## The transitions -/

/-- What is being read. -/
inductive LexState where
  | between
  /-- Inside a word: the next character, those after it, and the token of the word. -/
  | word (next : Char) (rest : List Char) (token : Token)
  | number (draft : NumberDraft)
  | string (draft : StringDraft)
  | escape (draft : StringDraft)
  /-- Inside a four-digit escape: the value so far and how many digits are to follow. -/
  | hex (draft : StringDraft) (value : Nat) (missing : Nat)
  /-- After a wrong digit in an escape: how many bytes the text must still have, else it counts as
  ended. -/
  | badHex (draft : StringDraft) (missing : Nat)
  | stopped

namespace LexState

/-- Start a token. -/
def start (c : Char) : LexState × List Token :=
  if c = ' ' ∨ c = '\t' ∨ c = '\n' ∨ c = '\r' then (between, [])
  else if c = '[' then (between, [.openArray])
  else if c = ']' then (between, [.closeArray])
  else if c = '{' then (between, [.openObject])
  else if c = '}' then (between, [.closeObject])
  else if c = ',' then (between, [.comma])
  else if c = ':' then (between, [.colon])
  else if c = '"' then (string .empty, [])
  else if c = 'n' then (word 'u' ['l', 'l'] .null, [])
  else if c = 't' then (word 'r' ['u', 'e'] (.bool true), [])
  else if c = 'f' then (word 'a' ['l', 's', 'e'] (.bool false), [])
  else if c = '-' ∨ c.isDigit then (number (.start c), [])
  else (stopped, [.stray])

/-- Break inside a word or a number. -/
def breakOff (fault : Fault) : LexState × List Token := (stopped, [.broken fault])

/-- Break inside a string. -/
def breakString (draft : StringDraft) (fault : Fault) : LexState × List Token :=
  (stopped, [draft.broken fault, .stray])

/-- Look for the rest of the bytes that a four-digit escape takes. -/
def spoil (draft : StringDraft) (missing : Nat) (c : Char) : LexState × List Token :=
  if missing ≤ c.utf8Size then breakString draft .badEscape
  else (badHex draft (missing - c.utf8Size), [])

/-- Read one character: the next state, and the tokens that are finished. -/
def step (state : LexState) (c : Char) : LexState × List Token :=
  match state with
  | stopped => (stopped, [])
  | between => start c
  | word next rest token =>
      if c = next then
        match rest with
        | [] => (between, [token])
        | d :: ds => (word d ds token, [])
      else breakOff .badWord
  | number draft =>
      match draft.step c with
      | .more next => (number next, [])
      | .failed => breakOff .badNumber
      | .ended =>
          let (next, tokens) := start c
          (next, .number draft.literal.value :: tokens)
  | string draft =>
      if c = '"' then (between, [.string draft.close])
      else if c = '\\' then (escape draft, [])
      else if c.toNat < 32 then
        breakString draft (if draft.high.isSome then .openHalf else .controlCharacter)
      else (string (draft.plain c), [])
  | escape draft =>
      if c = 'u' then (hex draft 0 4, [])
      else match shortEscape c with
        | some d => (string (draft.plain d), [])
        | none => breakString draft (if draft.high.isSome then .openHalf else .badEscape)
  | hex draft value missing =>
      match hexValue c with
      | none => spoil draft missing c
      | some d =>
          if missing ≤ 1 then (string (draft.code (value * 16 + d)), [])
          else (hex draft (value * 16 + d) (missing - 1), [])
  | badHex draft missing => spoil draft missing c

/-- The tokens that the end of the text finishes. -/
def finish (state : LexState) : List Token :=
  match state with
  | between => [.endOfText]
  | stopped => [.endOfText]
  | word .. => [.broken .endInValue]
  | number draft =>
      if draft.complete then [.number draft.literal.value, .endOfText] else [.broken .endInValue]
  | string draft => [draft.broken .endInString, .endOfText]
  | escape draft => [draft.broken .endInString, .endOfText]
  | hex draft .. => [draft.broken .endInString, .endOfText]
  | badHex draft _ => [draft.broken .endInString, .endOfText]

end LexState

end Dunning.Json
