import Dunning.Number.Decimal

/-!
# Reading numbers

Two readers share the type of finite binary64 numbers. Free text is read to the
nearest number. A document literal keeps integers of 64 bits exact; any other
literal is read quickly rather than exactly: its digits fill a 64-bit
significand as far as they fit, which is rounded and then scaled by rounded
powers of ten, so long literals may be off by a unit in the last place.
-/
namespace Dunning

/-- A document number: an integer of the signed or unsigned 64-bit range, or a float. -/
inductive Number where
  | int (i : Int)
  | float (x : Binary64)
  deriving DecidableEq, Inhabited

/-- A number literal cut into its parts; digits are in order. A literal without a point
has no fraction digits. -/
structure NumberLiteral where
  negative : Bool
  whole : List Nat
  fraction : List Nat
  exponent : Option Int
  deriving DecidableEq, Repr, Inhabited

namespace NumberLiteral

/-- The largest significand. -/
def significandMax : Nat := 18446744073709551615

/-- Append digits to a significand as long as it fits, and count them. -/
def gather (significand : Nat) : List Nat → Nat × Nat
  | [] => (significand, 0)
  | d :: ds =>
      if significandMax < significand * 10 + d then (significand, 0)
      else
        let (s, n) := gather (significand * 10 + d) ds
        (s, n + 1)

/-- A magnitude divided by a power of ten of any size, in steps of at most `10 ^ 308`. -/
def scaleDown (u p : Nat) : Nat :=
  if p ≤ 308 then Binary64.roundUnits u (Binary64.roundUnits (Nat.pow 10 p) 1)
  else if u = 0 then 0
  else scaleDown (Binary64.roundUnits u (Binary64.roundUnits (Nat.pow 10 308) 1)) (p - 308)
termination_by p

/-- A significand scaled by a power of ten; `none` past the range. -/
def scale (negative : Bool) (significand : Nat) (exponent : Int) : Option Binary64 :=
  let u := Binary64.roundUnits significand 1
  let p := exponent.natAbs
  if exponent < 0 then
    Binary64.ofRatio negative (scaleDown u p) Binary64.one
  else if p ≤ 308 then
    Binary64.ofRatio negative (u * Binary64.roundUnits (Nat.pow 10 p) 1) (Binary64.one * Binary64.one)
  else if u = 0 then some (Binary64.zero negative)
  else none

/-- The value of a document literal; `none` past the range of floats. Minus zero is a float. -/
def value (l : NumberLiteral) : Option Number :=
  let (s, taken) := gather 0 l.whole
  let dropped := l.whole.length - taken
  if l.fraction.isEmpty ∧ l.exponent.isNone ∧ dropped = 0 then
    if !l.negative then some (.int s)
    else if 0 < s ∧ s ≤ 9223372036854775808 then some (.int (-s))
    else (scale true s 0).map .float
  else
    let (s', places) := gather s l.fraction
    (scale l.negative s' ((dropped : Int) - places + l.exponent.getD 0)).map .float

end NumberLiteral

namespace Decimal

/-- The number nearest to a decimal. Decimals far outside the range are not expanded. -/
def toBinary64 (negative : Bool) (d : Decimal) : Option Binary64 :=
  let first := d.exponent + digitCount d.digits
  if d.digits = 0 ∨ first < -330 then some (Binary64.zero negative)
  else if 310 < first then none
  else Binary64.ofRatio negative d.ratio.1 d.ratio.2

end Decimal

namespace Binary64

/-- The value of a decimal digit. -/
def digit? (c : Char) : Option Nat := if c.isDigit then some (c.toNat - '0'.toNat) else none

/-- The digits that a text starts with, as one number, their count, and the rest. -/
def takeDigits (acc count : Nat) : List Char → Nat × Nat × List Char
  | [] => (acc, count, [])
  | c :: cs =>
      match digit? c with
      | some d => takeDigits (acc * 10 + d) (count + 1) cs
      | none => (acc, count, c :: cs)

/-- The sign that a text may start with, and the rest. -/
def takeSign : List Char → Bool × List Char
  | '-' :: cs => (true, cs)
  | '+' :: cs => (false, cs)
  | cs => (false, cs)

/-- An exponent mark with its digits, or nothing at all. -/
def readExponent : List Char → Option Int
  | [] => some 0
  | c :: cs =>
      if c = 'e' ∨ c = 'E' then
        let (negative, ds) := takeSign cs
        let (e, count, rest) := takeDigits 0 0 ds
        if count = 0 ∨ !rest.isEmpty then none
        else some (if negative then -(e : Int) else e)
      else none

/-- Read free text: an optional sign, digits with an optional point among or around them, and an
optional exponent. The result is the nearest number; infinite results and words are refused. -/
def read? (text : List Char) : Option Binary64 := do
  let (negative, unsigned) := takeSign text
  let (whole, count, rest) := takeDigits 0 0 unsigned
  let (all, places, rest) := match rest with
    | '.' :: cs =>
        let (n, k, r) := takeDigits whole 0 cs
        (n, k, r)
    | _ => (whole, 0, rest)
  if count + places = 0 then none
  else
    let exponent ← readExponent rest
    Decimal.toBinary64 negative ⟨all, exponent - places⟩

end Binary64

end Dunning
