/-!
# Finite binary64 numbers

A finite binary64 number is a sign and a magnitude counted in units of
`2 ^ -1074`, the smallest positive one. All operations round a quotient of
natural numbers once, to the nearest representable magnitude, a half going to
the even neighbour; results past the largest magnitude are refused.
-/
namespace Dunning

namespace Binary64

/-- The smallest positive number is `2 ^ -depth`. -/
def depth : Nat := 1074

/-- All magnitudes lie below `2 ^ top` units. -/
def top : Nat := 2098

/-- The number of units in one. -/
def one : Nat := Nat.pow 2 depth

/-- The first magnitude past the range, in units. -/
def limit : Nat := Nat.pow 2 top

/-- A magnitude is representable when it has at most 53 significant bits and lies in range. -/
def Representable (u : Nat) : Prop := u < limit ∧ ∃ m k, m < Nat.pow 2 53 ∧ u = m * Nat.pow 2 k

theorem pow_two_pos (k : Nat) : 0 < Nat.pow 2 k := Nat.two_pow_pos k

theorem limit_pos : 0 < limit := by
  unfold limit
  generalize top = k
  exact pow_two_pos k

theorem representable_zero : Representable 0 := ⟨limit_pos, 0, 0, by decide, by simp⟩

end Binary64

/-- The two zeros are different values with equal order. -/
structure Binary64 where
  negative : Bool
  units : Nat
  representable : Binary64.Representable units
  deriving DecidableEq

namespace Binary64

instance : Inhabited Binary64 := ⟨⟨false, 0, representable_zero⟩⟩

/-- The integer nearest to `n / d`, a half going to the even one. -/
def nearestEven (n d : Nat) : Nat :=
  let q := n / d
  let r := n % d
  if 2 * r < d then q else if d < 2 * r then q + 1 else q + q % 2

theorem nearestEven_le (n d : Nat) : nearestEven n d ≤ n / d + 1 := by
  simp only [nearestEven]
  split
  · omega
  · split <;> omega

/-- The spacing exponent of representable magnitudes near `u` units: 53 significant bits. -/
def spacing (u : Nat) : Nat := u.log2 - 52

theorem lt_two_pow_spacing (u : Nat) : u < Nat.pow 2 53 * Nat.pow 2 (spacing u) := by
  rw [Nat.pow_eq, Nat.pow_eq, ← Nat.pow_add]
  refine Nat.lt_of_lt_of_le Nat.lt_log2_self (Nat.pow_le_pow_right (by decide) ?_)
  simp only [spacing]
  omega

/-- The magnitude nearest to `n / d`, in units, without regard to the range. -/
def roundUnits (n d : Nat) : Nat :=
  let k := spacing (n * one / d)
  nearestEven (n * one) (d * Nat.pow 2 k) * Nat.pow 2 k

/-- The quotient in units of the spacing has at most 53 bits, or is the first with more. -/
theorem nearestEven_spacing_le (n d : Nat) :
    nearestEven (n * one) (d * Nat.pow 2 (spacing (n * one / d))) ≤ Nat.pow 2 53 := by
  generalize hk : spacing (n * one / d) = k
  have hq : n * one / d < Nat.pow 2 53 * Nat.pow 2 k := hk ▸ lt_two_pow_spacing (n * one / d)
  refine Nat.le_trans (nearestEven_le _ _) ?_
  rw [← Nat.div_div_eq_div_mul]
  have hd : n * one / d / Nat.pow 2 k < Nat.pow 2 53 :=
    (Nat.div_lt_iff_lt_mul (pow_two_pos k)).2 hq
  omega

/-- Rounding leaves at most 53 significant bits; a carry out of them ends in a power of two. -/
theorem roundUnits_significant (n d : Nat) :
    ∃ m k, m < Nat.pow 2 53 ∧ roundUnits n d = m * Nat.pow 2 k := by
  have hm := nearestEven_spacing_le n d
  simp only [roundUnits]
  generalize spacing (n * one / d) = k at hm ⊢
  rcases Nat.lt_or_eq_of_le hm with h | h
  · exact ⟨_, k, h, rfl⟩
  · exact ⟨Nat.pow 2 52, k + 1, by decide, by
      rw [h, Nat.pow_eq, Nat.pow_eq, Nat.pow_eq, Nat.pow_eq, ← Nat.pow_add, ← Nat.pow_add, Nat.add_comm k, ← Nat.add_assoc]⟩

/-- The number nearest to `n / d`; `none` past the range. -/
def ofRatio (negative : Bool) (n d : Nat) : Option Binary64 :=
  if h : roundUnits n d < limit then
    some ⟨negative, roundUnits n d, h, roundUnits_significant n d⟩
  else none

/-- The zero of a given sign. -/
def zero (negative : Bool) : Binary64 := ⟨negative, 0, representable_zero⟩

/-- The number nearest to an integer; zero past the range, which 64-bit integers never reach. -/
def ofInt (i : Int) : Binary64 := (ofRatio (i < 0) i.natAbs 1).getD (zero false)

/-- The signed count of units. Both zeros have count zero. -/
def signedUnits (x : Binary64) : Int := if x.negative then -(x.units : Int) else x.units

/-- Numeric order. -/
def less (x y : Binary64) : Bool := x.signedUnits < y.signedUnits

/-- Numeric equality: the two zeros are equal. -/
def same (x y : Binary64) : Bool := x.signedUnits == y.signedUnits

end Binary64

end Dunning
