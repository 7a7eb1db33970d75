/-!
# Calendar dates

The proleptic Gregorian calendar with a year zero and negative years. Days are
counted from 1970-01-01. Years are taken to begin in March, so that the leap
day is the last day of its year and the months have a fixed pattern of lengths.
-/
namespace Dunning

/-- A year, a month from 1 and a day from 1. -/
structure CalendarDate where
  year : Int
  month : Nat
  day : Nat
  deriving DecidableEq, Repr, Inhabited

namespace CalendarDate

/-- Every fourth year, except for three in four hundred. -/
def isLeap (year : Int) : Bool := year % 4 == 0 && (year % 100 != 0 || year % 400 == 0)

def monthLength (year : Int) (month : Nat) : Nat :=
  if month = 2 then (if isLeap year then 29 else 28)
  else if month = 4 ∨ month = 6 ∨ month = 9 ∨ month = 11 then 30
  else 31

/-- Whether the date exists. -/
def Exists (d : CalendarDate) : Prop :=
  1 ≤ d.month ∧ d.month ≤ 12 ∧ 1 ≤ d.day ∧ d.day ≤ monthLength d.year d.month

instance (d : CalendarDate) : Decidable d.Exists := inferInstanceAs (Decidable (_ ∧ _))

/-- Days from 0000-03-01 to 1970-01-01. -/
def epochShift : Int := 719468

/-- Days from the start of a March-based year to its month `m`, March being 0. -/
def daysBefore (m : Nat) : Nat := (153 * m + 2) / 5

/-- Days from 1970-01-01 to the date. -/
def toDays (d : CalendarDate) : Int :=
  let year := if d.month ≤ 2 then d.year - 1 else d.year
  let month := if d.month ≤ 2 then d.month + 9 else d.month - 3
  year * 365 + year / 4 - year / 100 + year / 400 + (daysBefore month + d.day : Nat) - 1 - epochShift

/-- The date a number of days after 1970-01-01: the days are cut into cycles of 400 years, then
centuries, groups of four years, years and months. -/
def ofDays (days : Int) : CalendarDate :=
  let shifted := days + epochShift
  let cycle := shifted / 146097
  let inCycle := (shifted % 146097).toNat
  let century := min (inCycle / 36524) 3
  let inCentury := inCycle - century * 36524
  let group := inCentury / 1461
  let inGroup := inCentury % 1461
  let single := min (inGroup / 365) 3
  let inYear := inGroup - single * 365
  let month := (5 * inYear + 2) / 153
  let day := inYear - daysBefore month + 1
  let year := cycle * 400 + (century * 100 + group * 4 + single : Nat)
  if month < 10 then ⟨year, month + 3, day⟩ else ⟨year + 1, month - 9, day⟩

end CalendarDate

end Dunning
