import Dunning.Number.Layout
import Dunning.Proofs.Number.Decimal
import Dunning.Proofs.Time.ReadBack

/-!
# The digits of a notation

Positional notation writes the digits of a decimal around a point, padded with zeros on either side
so that there are digits on both sides of it, or in front of it alone for a whole number.
-/
namespace Dunning.Decimal

variable (d : Decimal)

/-- The digits of a decimal behind as many zeros as its places need. -/
def paddedDigits : List Char :=
  List.replicate (d.exponent.natAbs + 1 - digitCount d.digits) '0' ++ Nat.toDigits 10 d.digits

/-- The digits in front of the point. -/
def wholeDigits : List Char :=
  if 0 ≤ d.exponent then Nat.toDigits 10 d.digits ++ List.replicate d.exponent.natAbs '0'
  else d.paddedDigits.take (d.paddedDigits.length - d.exponent.natAbs)

/-- The digits behind the point. -/
def fractionDigits : List Char :=
  if 0 ≤ d.exponent then [] else d.paddedDigits.drop (d.paddedDigits.length - d.exponent.natAbs)

variable {d}

theorem positionalText_of_nonneg (h : 0 ≤ d.exponent) (ending : String) :
    (d.positionalText ending).toList = d.wholeDigits ++ ending.toList := by
  simp [positionalText, wholeDigits, h]

theorem positionalText_of_neg (h : d.exponent < 0) (ending : String) :
    (d.positionalText ending).toList = d.wholeDigits ++ '.' :: d.fractionDigits := by
  have hnot : ¬0 ≤ d.exponent := Int.not_le.2 h
  simp [positionalText, wholeDigits, fractionDigits, paddedDigits, digitCount, hnot]

theorem isDigit_of_mem_toDigits {n : Nat} {c : Char} (h : c ∈ Nat.toDigits 10 n) :
    c.isDigit = true :=
  Nat.isDigit_of_mem_toDigits (by decide) (by decide) h

theorem isDigit_of_mem_zeros {n : Nat} {c : Char} (h : c ∈ List.replicate n '0') :
    c.isDigit = true := by
  rw [List.eq_of_mem_replicate h]
  rfl

theorem isDigit_of_mem_paddedDigits {c : Char} (h : c ∈ d.paddedDigits) : c.isDigit = true :=
  (List.mem_append.1 h).elim isDigit_of_mem_zeros isDigit_of_mem_toDigits

theorem isDigit_of_mem_wholeDigits {c : Char} (h : c ∈ d.wholeDigits) : c.isDigit = true := by
  unfold wholeDigits at h
  split_ifs at h
  · exact (List.mem_append.1 h).elim isDigit_of_mem_toDigits isDigit_of_mem_zeros
  · exact isDigit_of_mem_paddedDigits (List.mem_of_mem_take h)

theorem isDigit_of_mem_fractionDigits {c : Char} (h : c ∈ d.fractionDigits) : c.isDigit = true := by
  unfold fractionDigits at h
  split_ifs at h
  · cases h
  · exact isDigit_of_mem_paddedDigits (List.mem_of_mem_drop h)

/-- There is a digit in front of the point. -/
theorem length_paddedDigits (d : Decimal) :
    d.paddedDigits.length = max (d.exponent.natAbs + 1) (digitCount d.digits) := by
  simp only [paddedDigits, List.length_append, List.length_replicate, digitCount]
  omega

theorem wholeDigits_ne_nil (d : Decimal) : d.wholeDigits ≠ [] := by
  unfold wholeDigits
  split_ifs
  · simp [Nat.toDigits_ne_nil]
  · rw [← List.length_pos_iff, List.length_take, length_paddedDigits]
    omega

theorem length_fractionDigits (h : d.exponent < 0) :
    (d.fractionDigits.length : Int) = -d.exponent := by
  have hlength := length_paddedDigits d
  rw [fractionDigits, if_neg (Int.not_le.2 h), List.length_drop]
  omega

/-- Zeros behind a whole number multiply it. -/
theorem ofDigitChars_wholeDigits (h : 0 ≤ d.exponent) :
    Nat.ofDigitChars 10 d.wholeDigits 0 = d.digits * 10 ^ d.exponent.natAbs := by
  rw [wholeDigits, if_pos h, Nat.ofDigitChars_append, Nat.ofDigitChars_ten_toDigits,
    Nat.ofDigitChars_replicate_zero, Nat.mul_comm]

/-- Zeros in front of a number count for nothing. -/
theorem ofDigitChars_digits (h : d.exponent < 0) :
    Nat.ofDigitChars 10 (d.wholeDigits ++ d.fractionDigits) 0 = d.digits := by
  rw [wholeDigits, fractionDigits, if_neg (Int.not_le.2 h), if_neg (Int.not_le.2 h),
    List.take_append_drop, paddedDigits, Nat.ofDigitChars_append, Nat.ofDigitChars_replicate_zero,
    Nat.mul_zero, Nat.ofDigitChars_ten_toDigits]

end Dunning.Decimal
