import Dunning.Time.Calendar

/-!
# Instants

An instant is a second of universal time and nanoseconds within it. A leap
second is the second before it with a thousand million nanoseconds more, and
only the last second of a minute has one. Instants lie in the years -262143 to
262142.
-/
namespace Dunning

namespace Instant

/-- Nanoseconds in a second. -/
def second : Nat := 1000000000

def firstSecond : Int := CalendarDate.toDays ⟨-262143, 1, 1⟩ * 86400

def lastSecond : Int := CalendarDate.toDays ⟨262142, 12, 31⟩ * 86400 + 86399

/-- What a second count and nanoseconds must satisfy to be an instant. -/
def Valid (seconds : Int) (nanos : Nat) : Prop :=
  firstSecond ≤ seconds ∧ seconds ≤ lastSecond ∧ nanos < 2 * second ∧
    (second ≤ nanos → seconds % 60 = 59)

instance (seconds : Int) (nanos : Nat) : Decidable (Valid seconds nanos) :=
  inferInstanceAs (Decidable (_ ∧ _))

end Instant

/-- Seconds since 1970-01-01T00:00:00Z and the nanoseconds past them. -/
structure Instant where
  seconds : Int
  nanos : Nat
  valid : Instant.Valid seconds nanos
  deriving DecidableEq

namespace Instant

def ofSeconds? (seconds : Int) (nanos : Nat) : Option Instant :=
  if h : Valid seconds nanos then some ⟨seconds, nanos, h⟩ else none

/-- The start of 1970. -/
def epoch : Instant := ⟨0, 0, by decide⟩

instance : Inhabited Instant := ⟨epoch⟩

/-- Whether `a` is not later than `b`: by seconds, then by nanoseconds. -/
def le (a b : Instant) : Bool :=
  a.seconds < b.seconds || (a.seconds == b.seconds && a.nanos ≤ b.nanos)

/-- The instant a whole number of hours later; `none` past the last one. A leap second that is
left becomes the second before it. -/
def addHours (t : Instant) (hours : Nat) : Option Instant :=
  if hours = 0 then some t
  else ofSeconds? (t.seconds + 3600 * hours) (t.nanos % second)

end Instant

end Dunning
