import Dunning.Time.Instant
import Dunning.Text.Blank

/-!
# Timestamps

The text of an instant is a date, a time of day and an offset. Writing uses
universal time, as many of 0, 3, 6 or 9 fraction digits as are needed, and a
sign for years outside 0000 to 9999. Reading is more generous: numbers may be
short, blanks may stand before them, any offset is accepted, and fraction
digits past nanoseconds are dropped.
-/
namespace Dunning

/-- Why a text is not a timestamp. -/
inductive TimestampProblem where
  | tooShort
  | badCharacter
  | outOfRange
  | tooLong
  | impossible
  deriving DecidableEq, Repr

namespace TimestampProblem

def message : TimestampProblem → String
  | tooShort => "premature end of input"
  | badCharacter => "input contains invalid characters"
  | outOfRange => "input is out of range"
  | tooLong => "trailing input"
  | impossible => "no possible date and time matching input"

end TimestampProblem

namespace Timestamp

/-! ## Writing -/

/-- A number with at least `width` digits. -/
def padded (width n : Nat) : String :=
  let digits := Nat.toDigits 10 n
  String.ofList (List.replicate (width - digits.length) '0' ++ digits)

def yearText (year : Int) : String :=
  if 0 ≤ year ∧ year ≤ 9999 then padded 4 year.natAbs
  else (if year < 0 then "-" else "+") ++ padded 4 year.natAbs

/-- As many of 0, 3, 6 or 9 digits as are needed. -/
def fractionText (nanos : Nat) : String :=
  if nanos = 0 then ""
  else if nanos % 1000000 = 0 then "." ++ padded 3 (nanos / 1000000)
  else if nanos % 1000 = 0 then "." ++ padded 6 (nanos / 1000)
  else "." ++ padded 9 nanos

/-- The text of an instant in universal time, closed by the given offset mark. -/
def render (zone : String) (t : Instant) : String :=
  let date := CalendarDate.ofDays (t.seconds / 86400)
  let ofDay := (t.seconds % 86400).toNat
  let leap := t.nanos / Instant.second
  yearText date.year ++ "-" ++ padded 2 date.month ++ "-" ++ padded 2 date.day ++ "T" ++
    padded 2 (ofDay / 3600) ++ ":" ++ padded 2 (ofDay / 60 % 60) ++ ":" ++
    padded 2 (ofDay % 60 + leap) ++ fractionText (t.nanos % Instant.second) ++ zone

/-! ## Reading -/

/-- At least one digit and at most `width` of them. -/
def digits (width : Nat) (text : List Char) : Except TimestampProblem (List Char × List Char) :=
  let found := (text.take width).takeWhile Char.isDigit
  match text, found with
  | [], _ => .error .tooShort
  | _, [] => .error .badCharacter
  | _, _ => .ok (found, text.drop found.length)

/-- The number that a list of decimal digits denotes. -/
def numeral (ds : List Char) : Nat := ds.foldl (fun n c => n * 10 + (c.toNat - '0'.toNat)) 0

/-- A number of at most `width` digits, after blanks. -/
def number (width : Nat) (text : List Char) : Except TimestampProblem (Nat × List Char) := do
  let (ds, rest) ← digits width (Text.dropBlank text)
  return (numeral ds, rest)

/-- A two-digit number between bounds, after blanks. -/
def bounded (low high : Nat) (text : List Char) : Except TimestampProblem (Nat × List Char) := do
  let (n, rest) ← number 2 text
  if low ≤ n ∧ n ≤ high then return (n, rest) else .error .outOfRange

/-- A year: four digits at most, or any number of digits after a sign. -/
def year (text : List Char) : Except TimestampProblem (Int × List Char) := do
  let inRange (y : Int) (rest : List Char) : Except TimestampProblem (Int × List Char) :=
    if -2147483648 ≤ y ∧ y ≤ 2147483647 then .ok (y, rest) else .error .outOfRange
  match Text.dropBlank text with
  | '-' :: cs => do
      let (ds, rest) ← digits cs.length cs
      inRange (-(numeral ds : Int)) rest
  | '+' :: cs => do
      let (ds, rest) ← digits cs.length cs
      inRange (numeral ds) rest
  | cs => do
      let (ds, rest) ← digits 4 cs
      inRange (numeral ds) rest

/-- A separating character, after blanks. -/
def separator (c : Char) (text : List Char) : Except TimestampProblem (Unit × List Char) :=
  match Text.dropBlank text with
  | [] => .error .tooShort
  | d :: rest => if d = c then .ok ((), rest) else .error .badCharacter

/-- A point and fraction digits, if there is a point: nanoseconds. -/
def fraction (text : List Char) : Except TimestampProblem (Nat × List Char) :=
  match text with
  | '.' :: cs => do
      let (ds, rest) ← digits 9 cs
      return (numeral ds * Nat.pow 10 (9 - ds.length), rest.dropWhile Char.isDigit)
  | cs => .ok (0, cs)

/-- Two decimal digits. -/
def twoDigits (highest : Char) (text : List Char) : Except TimestampProblem (Nat × List Char) :=
  match text with
  | a :: b :: rest =>
      if a.isDigit ∧ b.isDigit then
        if a ≤ highest then .ok (numeral [a, b], rest) else .error .outOfRange
      else .error .badCharacter
  | [a] => if a.utf8Size < 2 then .error .tooShort else .error .badCharacter
  | [] => .error .tooShort

/-- An offset in seconds east of universal time: `Z`, `UTC`, or a sign with hours and minutes. -/
def offset (text : List Char) : Except TimestampProblem (Int × List Char) := do
  let signed (negative : Bool) (cs : List Char) : Except TimestampProblem (Int × List Char) := do
    let (hours, rest) ← twoDigits '9' cs
    let (minutes, rest) ← twoDigits '5' (rest.dropWhile fun c => c = ':' ∨ Text.isBlank c)
    let seconds : Int := hours * 3600 + minutes * 60
    return (if negative then -seconds else seconds, rest)
  match text with
  | [] => .error .tooShort
  | c :: cs =>
      if c = 'Z' ∨ c = 'z' then .ok (0, cs)
      else if (text.take 3).map Char.toUpper = ['U', 'T', 'C'] then .ok (0, text.drop 3)
      else if c = '+' then signed false cs
      else if c = '-' ∨ c = '\u2212' then signed true cs
      else .error .badCharacter

/-- The instant of a local date and time of day at an offset. -/
def resolve (date : CalendarDate) (ofDay nanos : Nat) (east : Int) : Except TimestampProblem Instant :=
  let seconds := date.toDays * 86400 + ofDay
  if ¬date.Exists ∨ seconds < Instant.firstSecond ∨ Instant.lastSecond < seconds then
    .error .outOfRange
  else if east ≤ -86400 ∨ 86400 ≤ east then .error .outOfRange
  else match Instant.ofSeconds? (seconds - east) nanos with
    | some t => .ok t
    | none => .error .impossible

/-- Read a timestamp. -/
def read (text : List Char) : Except TimestampProblem Instant := do
  let (y, rest) ← year text
  let (_, rest) ← separator '-' rest
  let (month, rest) ← bounded 1 12 rest
  let (_, rest) ← separator '-' rest
  let (day, rest) ← bounded 1 31 rest
  let rest ← match rest with
    | [] => .error .tooShort
    | c :: cs => if c = 'T' ∨ c = 't' ∨ c = ' ' then .ok cs else .error TimestampProblem.badCharacter
  let (hour, rest) ← bounded 0 23 rest
  let (_, rest) ← separator ':' rest
  let (minute, rest) ← bounded 0 59 rest
  let (_, rest) ← separator ':' rest
  let (second, rest) ← bounded 0 60 rest
  let (nanos, rest) ← fraction rest
  let (east, rest) ← offset (Text.dropBlank rest)
  if !(Text.dropBlank rest).isEmpty then .error .tooLong
  else
    let leap := if second = 60 then Instant.second else 0
    resolve ⟨y, month, day⟩ (hour * 3600 + minute * 60 + min second 59) (nanos + leap) east

end Timestamp

namespace Instant

/-- The text stored and exchanged. -/
def text (t : Instant) : String := Timestamp.render "Z" t

end Instant

end Dunning
