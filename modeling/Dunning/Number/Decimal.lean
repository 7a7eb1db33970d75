import Dunning.Number.Binary64

/-!
# Shortest decimals

Every magnitude has a finite decimal expansion. Its shortest decimal is found
on the grids of one, two, three, ... significant digits: the first grid on which
one of the two neighbours of the value reads back wins. The full expansion
reads back, so the search always ends there at the latest.
-/
namespace Dunning

/-- The number `digits * 10 ^ exponent`. -/
structure Decimal where
  digits : Nat
  exponent : Int
  deriving DecidableEq, Repr, Inhabited

namespace Decimal

/-- The quotient of naturals that a decimal denotes. -/
def ratio (d : Decimal) : Nat × Nat :=
  if d.exponent < 0 then (d.digits, Nat.pow 10 d.exponent.natAbs)
  else (d.digits * Nat.pow 10 d.exponent.natAbs, 1)

/-- The magnitude nearest to a decimal, in units. -/
def roundUnits (d : Decimal) : Nat := Binary64.roundUnits d.ratio.1 d.ratio.2

/-- The number of decimal digits of a natural number; one for zero. -/
def digitCount (n : Nat) : Nat := (Nat.toDigits 10 n).length

/-- The exact expansion of a magnitude: a unit is `5 ^ depth * 10 ^ -depth`. -/
def exact (u : Nat) : Decimal := ⟨u * Nat.pow 5 Binary64.depth, -Binary64.depth⟩

/-- Where a value lies exactly between two decimals of a grid that both read back. -/
inductive Tie where
  | even
  | up
  deriving DecidableEq, Repr

/-- The neighbour of `n / 10 ^ drop` on the grid that reads back as `u`, the nearer one of two. -/
def onGrid (tie : Tie) (u n drop : Nat) : Option Decimal :=
  let grid := Nat.pow 10 drop
  let low := n / grid
  let rest := n % grid
  let exponent := (drop : Int) - Binary64.depth
  let readsBack := fun c => roundUnits ⟨c, exponent⟩ == u
  let below := if readsBack low then some low else none
  let above := if readsBack (low + 1) then some (low + 1) else none
  let pick := match below, above with
    | some a, some b =>
        if 2 * rest < grid then some a
        else if grid < 2 * rest then some b
        else match tie with
          | .even => some (if a % 2 = 0 then a else b)
          | .up => some b
    | some a, none => some a
    | none, b => b
  pick.map fun c => ⟨c, exponent⟩

/-- Move trailing zeros of the digits into the exponent. -/
def strip (d : Decimal) : Decimal :=
  if h : d.digits ≠ 0 ∧ d.digits % 10 = 0 then strip ⟨d.digits / 10, d.exponent + 1⟩ else d
termination_by d.digits
decreasing_by exact Nat.div_lt_self (Nat.pos_of_ne_zero h.1) (by decide)

/-- The shortest decimal that reads back as the magnitude `u`, nearest to it among those. -/
def shortest (tie : Tie) (u : Nat) : Decimal :=
  let n := (exact u).digits
  let count := digitCount n
  let found := (List.range count).findSome? fun i => onGrid tie u n (count - 1 - i)
  strip (found.getD (exact u))

end Decimal

end Dunning
