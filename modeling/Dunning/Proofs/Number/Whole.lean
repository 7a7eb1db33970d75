import Dunning.Proofs.Number.Rounding

/-!
# Integers as binary64 numbers

Whole numbers below `2 ^ 53` are kept. A larger one becomes the nearest multiple of a power of two
with 53 bits in front of it, so that the order of integers is kept, but not always strictly.
-/
namespace Dunning.Binary64

/-- The whole number nearest to `n` with at most 53 significant bits. -/
def nearestWhole (n : Nat) : Nat := nearestEven n (2 ^ spacing n) * 2 ^ spacing n

theorem spacing_of_lt {n : Nat} (h : n < 2 ^ 53) : spacing n = 0 := by
  rcases Nat.eq_zero_or_pos n with rfl | hn
  · rfl
  · have hlog := (Nat.log2_lt (by omega)).2 h
    simp only [spacing]
    omega

theorem log2_mul_two_pow {n : Nat} (h : n ≠ 0) (k : Nat) : (n * 2 ^ k).log2 = n.log2 + k := by
  induction k with
  | zero => simp
  | succ k ih =>
    rw [Nat.pow_succ, ← Nat.mul_assoc, Nat.mul_comm, Nat.log2_two_mul, ih, Nat.add_assoc]
    exact Nat.mul_ne_zero h (Nat.two_pow_pos k).ne'

theorem nearestWhole_of_lt {n : Nat} (h : n < 2 ^ 53) : nearestWhole n = n := by
  have hself := nearestEven_mul_self n Nat.one_pos
  rw [Nat.mul_one] at hself
  rw [nearestWhole, spacing_of_lt h, Nat.pow_zero, Nat.mul_one, hself]

theorem one_eq : one = 2 ^ depth := by
  unfold one
  generalize depth = k
  rfl

theorem spacing_mul_one {n : Nat} (h : 2 ^ 53 ≤ n) : spacing (n * one) = spacing n + depth := by
  have hn : n ≠ 0 := by omega
  have hlog : 53 ≤ n.log2 := (Nat.le_log2 hn).2 h
  simp only [spacing, one_eq]
  rw [log2_mul_two_pow hn]
  omega

/-- In units the spacing of whole numbers with more than 53 bits is wider by the bits of one. -/
theorem roundUnits_one (n : Nat) : roundUnits n 1 = nearestWhole n * one := by
  rcases Nat.lt_or_ge n (2 ^ 53) with h | h
  · have hself := roundUnits_self (j := depth) h
    rw [← one_eq] at hself
    calc roundUnits n 1 = roundUnits (n * one) one :=
        roundUnits_congr Nat.one_pos one_pos (Nat.mul_one _).symm
      _ = n * one := hself
      _ = nearestWhole n * one := by rw [nearestWhole_of_lt h]
  · have hunit : 1 * Nat.pow 2 (spacing n + depth) = 2 ^ spacing n * one := by
      rw [Nat.one_mul, Nat.pow_eq, Nat.pow_add, one_eq]
    simp only [roundUnits, Nat.div_one, spacing_mul_one h, hunit]
    rw [nearestEven_mul_right _ _ one_pos, ← Nat.one_mul (Nat.pow _ _), hunit, nearestWhole,
      Nat.mul_assoc]

theorem nearestWhole_mono {n m : Nat} (h : n ≤ m) : nearestWhole n ≤ nearestWhole m := by
  have hunits := roundUnits_mono Nat.one_pos Nat.one_pos (Nat.mul_le_mul_right 1 h)
  rw [roundUnits_one, roundUnits_one] at hunits
  exact Nat.le_of_mul_le_mul_right hunits one_pos

/-- Whole numbers that are not kept do not become smaller than all those that are. -/
theorem le_nearestWhole {n : Nat} (h : 2 ^ 53 ≤ n) : 2 ^ 53 ≤ nearestWhole n :=
  calc 2 ^ 53 = nearestWhole (2 ^ 53) := by decide
    _ ≤ nearestWhole n := nearestWhole_mono h

/-- No two whole numbers become one if either is below `2 ^ 53`. -/
theorem nearestWhole_inj {n m : Nat} (h : n < 2 ^ 53 ∨ m < 2 ^ 53) :
    nearestWhole n = nearestWhole m ↔ n = m := by
  constructor
  · intro hsame
    rcases Nat.lt_or_ge n (2 ^ 53) with hn | hn <;> rcases Nat.lt_or_ge m (2 ^ 53) with hm | hm
    · rwa [nearestWhole_of_lt hn, nearestWhole_of_lt hm] at hsame
    · have hlarge := le_nearestWhole hm
      rw [nearestWhole_of_lt hn] at hsame
      omega
    · have hlarge := le_nearestWhole hn
      rw [nearestWhole_of_lt hm] at hsame
      omega
    · omega
  · rintro rfl
    rfl

/-! ## Signed integers -/

/-- The integer nearest to `i` with at most 53 significant bits. -/
def nearestInt (i : Int) : Int :=
  if i < 0 then -(nearestWhole i.natAbs : Int) else nearestWhole i.natAbs

theorem nearestInt_mono {i j : Int} (h : i ≤ j) : nearestInt i ≤ nearestInt j := by
  simp only [nearestInt]
  split_ifs with hi hj hj
  · have hle : nearestWhole j.natAbs ≤ nearestWhole i.natAbs := nearestWhole_mono (by omega)
    omega
  · omega
  · omega
  · have hle : nearestWhole i.natAbs ≤ nearestWhole j.natAbs := nearestWhole_mono (by omega)
    omega

theorem nearestInt_inj {i j : Int} (h : i.natAbs < 2 ^ 53 ∨ j.natAbs < 2 ^ 53) :
    nearestInt i = nearestInt j ↔ i = j := by
  have hmagnitudes := nearestWhole_inj h
  have hzero : ∀ n, nearestWhole n = 0 ↔ n = 0 := fun n =>
    nearestWhole_inj (m := 0) (.inr (by decide))
  have hi := hzero i.natAbs
  have hj := hzero j.natAbs
  simp only [nearestInt]
  split_ifs <;> omega

/-- Integers up to 64 bits are in range. -/
theorem roundUnits_lt_limit {n : Nat} (h : n ≤ 2 ^ 64) : roundUnits n 1 < limit := by
  have hlimit : roundUnits (2 ^ 64) 1 < limit := by decide +kernel
  exact Nat.lt_of_le_of_lt (roundUnits_mono Nat.one_pos Nat.one_pos (Nat.mul_le_mul_right 1 h)) hlimit

variable {i : Int}

theorem ofInt_eq (h : i.natAbs ≤ 2 ^ 64) : ofInt i =
    ⟨i < 0, roundUnits i.natAbs 1, roundUnits_lt_limit h, roundUnits_significant i.natAbs 1⟩ := by
  simp [ofInt, ofRatio, roundUnits_lt_limit h]

theorem signedUnits_ofInt (h : i.natAbs ≤ 2 ^ 64) : (ofInt i).signedUnits = nearestInt i * one := by
  simp only [ofInt_eq h, signedUnits, nearestInt, roundUnits_one, decide_eq_true_eq]
  split_ifs
  · push_cast
    ring
  · push_cast
    rfl

/-- Integers as numbers are in the order of the nearest integers. -/
theorem less_ofInt {j : Int} (hi : i.natAbs ≤ 2 ^ 64) (hj : j.natAbs ≤ 2 ^ 64) :
    (ofInt i).less (ofInt j) = true ↔ nearestInt i < nearestInt j := by
  have hone : (0 : Int) < one := Int.natCast_pos.2 one_pos
  simp only [less, signedUnits_ofInt hi, signedUnits_ofInt hj, decide_eq_true_eq]
  exact Int.mul_lt_mul_right hone

theorem same_ofInt {j : Int} (hi : i.natAbs ≤ 2 ^ 64) (hj : j.natAbs ≤ 2 ^ 64) :
    (ofInt i).same (ofInt j) = true ↔ nearestInt i = nearestInt j := by
  have hone : (one : Int) ≠ 0 := Int.natCast_ne_zero.2 one_pos.ne'
  simp only [same, signedUnits_ofInt hi, signedUnits_ofInt hj, beq_iff_eq]
  exact mul_left_inj' hone

end Dunning.Binary64
