import Dunning.Number.Decimal

/-!
# Number text

A layout says how the digits of a shortest decimal become text: which
exponents are written positionally, what ends a whole number, and which way an
exact tie between two shortest decimals goes.
-/
namespace Dunning

/-- The choices that turn a number into text. -/
structure NumberLayout where
  /-- Positional notation is used when `low ≤ e < high` for the exponent `e` of the first digit;
  without bounds it is always used. -/
  positional : Option (Int × Int)
  /-- Written after a whole number in positional notation. -/
  whole : String
  tie : Decimal.Tie

namespace NumberLayout

/-- `0.00001` and `1000000000000000.0` are the positional extremes; `1e-6` and `1e+16` are past them. -/
def json : NumberLayout := ⟨some (-5, 16), ".0", .even⟩

/-- Never an exponent, and no point after a whole number. -/
def plain : NumberLayout := ⟨none, "", .up⟩

end NumberLayout

namespace Decimal

/-- The decimal digits of a natural number. -/
def digitText (n : Nat) : String := String.ofList (Nat.toDigits 10 n)

/-- Positional notation; `whole` follows a number without a fraction. -/
def positionalText (whole : String) (d : Decimal) : String :=
  let digits := Nat.toDigits 10 d.digits
  if 0 ≤ d.exponent then
    String.ofList (digits ++ List.replicate d.exponent.natAbs '0') ++ whole
  else
    let places := d.exponent.natAbs
    let padded := List.replicate (places + 1 - digits.length) '0' ++ digits
    let split := padded.length - places
    String.ofList (padded.take split) ++ "." ++ String.ofList (padded.drop split)

/-- Scientific notation with a signed exponent. -/
def scientificText (d : Decimal) : String :=
  let digits := Nat.toDigits 10 d.digits
  let first := d.exponent + digits.length - 1
  let head := String.ofList (digits.take 1)
  let tail := String.ofList (digits.drop 1)
  let point := if tail.isEmpty then "" else "."
  let sign := if first < 0 then "-" else "+"
  head ++ point ++ tail ++ "e" ++ sign ++ digitText first.natAbs

/-- The text of a stripped decimal. -/
def text (layout : NumberLayout) (d : Decimal) : String :=
  let first := d.exponent + digitCount d.digits - 1
  match layout.positional with
  | none => d.positionalText layout.whole
  | some (low, high) =>
      if d.digits = 0 ∨ (low ≤ first ∧ first < high) then d.positionalText layout.whole
      else d.scientificText

end Decimal

namespace Binary64

/-- The shortest text of a number that reads back. Zero keeps its sign. -/
def text (layout : NumberLayout) (x : Binary64) : String :=
  let magnitude := if x.units = 0 then ⟨0, 0⟩ else Decimal.shortest layout.tie x.units
  let sign := if x.negative then "-" else ""
  sign ++ magnitude.text layout

end Binary64

end Dunning
