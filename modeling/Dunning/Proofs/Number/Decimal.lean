import Dunning.Number.Literal
import Dunning.Proofs.Number.Rounding

/-!
# Decimals of magnitudes

A decimal is a quotient of integers and is rounded as one. The shortest decimal of a magnitude is
rounded to this magnitude again, whichever grid it was found on and whichever way a tie went, and
it is never so long or so short that it would not be rounded at all.
-/
namespace Dunning.Decimal

open Binary64 (Representable)

/-- A decimal is rounded as the quotient of two integers, for any power of ten that makes it whole. -/
theorem roundUnits_whole (d : Decimal) {places : Nat} (h : 0 ≤ d.exponent + places) :
    d.roundUnits =
      Binary64.roundUnits (d.digits * 10 ^ (d.exponent + places).toNat) (10 ^ places) := by
  obtain ⟨digits, exponent⟩ := d
  simp only [roundUnits, ratio, Nat.pow_eq] at h ⊢
  split_ifs with hneg
  · have hplaces : places = (exponent + places).toNat + exponent.natAbs := by omega
    refine Binary64.roundUnits_congr (Nat.pow_pos (by decide)) (Nat.pow_pos (by decide)) ?_
    rw [Nat.mul_assoc, ← Nat.pow_add, ← hplaces]
  · have hexponent : (exponent + places).toNat = exponent.natAbs + places := by omega
    refine Binary64.roundUnits_congr Nat.one_pos (Nat.pow_pos (by decide)) ?_
    rw [hexponent, Nat.pow_add, Nat.mul_one, Nat.mul_assoc]

/-- Zeros at the end count for nothing. -/
theorem roundUnits_strip (d : Decimal) : d.strip.roundUnits = d.roundUnits := by
  induction d using strip.induct with
  | case1 d hzero ih =>
    have hwhole : 0 ≤ d.exponent + (d.exponent.natAbs : Nat) := by omega
    have hwhole' : 0 ≤ d.exponent + 1 + (d.exponent.natAbs : Nat) := by omega
    have hexponent : (d.exponent + 1 + (d.exponent.natAbs : Nat)).toNat =
        1 + (d.exponent + (d.exponent.natAbs : Nat)).toNat := by omega
    have hdigits : d.digits / 10 * 10 = d.digits := by omega
    rw [strip, dif_pos hzero, ih, roundUnits_whole _ hwhole', roundUnits_whole d hwhole]
    dsimp only
    rw [hexponent, Nat.pow_add, Nat.pow_one, ← Nat.mul_assoc, hdigits]
  | case2 d hlast => rw [strip, dif_neg hlast]

/-- The full expansion of a magnitude is the magnitude. -/
theorem roundUnits_exact {u : Nat} (h : Representable u) : (exact u).roundUnits = u := by
  have hwhole : (exact u).exponent + (Binary64.depth : Nat) = 0 := by simp [exact]
  have hunits : (exact u).digits * 10 ^ 0 * Binary64.one = u * 10 ^ Binary64.depth := by
    unfold exact Binary64.one
    generalize Binary64.depth = k
    rw [Nat.pow_eq, Nat.pow_eq, Nat.pow_zero, Nat.mul_one, Nat.mul_assoc, ← Nat.mul_pow]
  calc (exact u).roundUnits
      = Binary64.roundUnits ((exact u).digits * 10 ^ 0) (10 ^ Binary64.depth) := by
        rw [roundUnits_whole _ (Int.le_of_eq hwhole.symm), hwhole, Int.toNat_zero]
    _ = Binary64.roundUnits u Binary64.one :=
        Binary64.roundUnits_congr (Nat.pow_pos (by decide)) Binary64.one_pos hunits
    _ = u := Binary64.roundUnits_of_representable h

/-- What is found on a grid is one of the two neighbours, and reads back. -/
theorem of_onGrid {tie : Tie} {u n drop : Nat} {d : Decimal} (h : onGrid tie u n drop = some d) :
    d.exponent = (drop : Int) - Binary64.depth ∧
      (d.digits = n / 10 ^ drop ∨ d.digits = n / 10 ^ drop + 1) ∧ d.roundUnits = u := by
  simp only [onGrid, Option.map_eq_some_iff, beq_iff_eq, Nat.pow_eq] at h
  obtain ⟨c, hpick, rfl⟩ := h
  refine ⟨rfl, ?_⟩
  by_cases hbelow : roundUnits ⟨n / 10 ^ drop, (drop : Int) - Binary64.depth⟩ = u <;>
    by_cases habove : roundUnits ⟨n / 10 ^ drop + 1, (drop : Int) - Binary64.depth⟩ = u <;>
    simp only [hbelow, habove, if_true, if_false, reduceCtorEq] at hpick
  · -- Both neighbours read back, so that it does not matter which one is nearer.
    have hboth : c = n / 10 ^ drop ∨ c = n / 10 ^ drop + 1 := by
      cases tie <;> split_ifs at hpick <;> simp_all
    rcases hboth with rfl | rfl
    · exact ⟨.inl rfl, hbelow⟩
    · exact ⟨.inr rfl, habove⟩
  · cases hpick
    exact ⟨.inl rfl, hbelow⟩
  · cases hpick
    exact ⟨.inr rfl, habove⟩

/-- The shortest decimal of a magnitude is rounded to it. -/
theorem roundUnits_shortest (tie : Tie) {u : Nat} (h : Representable u) :
    (shortest tie u).roundUnits = u := by
  simp only [shortest]
  rw [roundUnits_strip]
  generalize digitCount (exact u).digits = count
  cases hfound : (List.range count).findSome? fun i =>
      onGrid tie u (exact u).digits (count - 1 - i) with
  | none => exact roundUnits_exact h
  | some d =>
    obtain ⟨i, -, hgrid⟩ := List.exists_of_findSome?_eq_some hfound
    exact (of_onGrid hgrid).2.2

/-! ## The number of a decimal -/

theorem lt_pow_digitCount (n : Nat) : n < 10 ^ digitCount n :=
  (Nat.length_toDigits_le_iff (by decide) Nat.length_toDigits_pos).1 (Nat.le_refl _)

theorem pow_le_of_lt_digitCount {n k : Nat} (hn : 0 < n) (h : k < digitCount n) : 10 ^ k ≤ n := by
  rcases Nat.eq_zero_or_pos k with rfl | hk
  · exact hn
  · exact Nat.le_of_not_lt fun hlt =>
      Nat.not_le.2 h ((Nat.length_toDigits_le_iff (by decide) hk).2 hlt)

/-- A decimal whose first digit is so far behind the point is below a power of ten. -/
theorem roundUnits_le_of_count {d : Decimal} {k : Nat} (h : d.exponent + digitCount d.digits + k ≤ 0) :
    d.roundUnits ≤ Binary64.roundUnits 1 (10 ^ k) := by
  have hwhole : 0 ≤ d.exponent + (d.exponent.natAbs : Nat) := by omega
  have hexponent : digitCount d.digits + (d.exponent + (d.exponent.natAbs : Nat)).toNat + k ≤
      d.exponent.natAbs := by omega
  rw [roundUnits_whole d hwhole]
  refine Binary64.roundUnits_mono (Nat.pow_pos (by decide)) (Nat.pow_pos (by decide)) ?_
  calc d.digits * 10 ^ (d.exponent + (d.exponent.natAbs : Nat)).toNat * 10 ^ k
      ≤ 10 ^ digitCount d.digits * 10 ^ (d.exponent + (d.exponent.natAbs : Nat)).toNat * 10 ^ k :=
        Nat.mul_le_mul_right _ (Nat.mul_le_mul_right _ (lt_pow_digitCount d.digits).le)
    _ ≤ 1 * 10 ^ d.exponent.natAbs := by
        rw [← Nat.pow_add, ← Nat.pow_add, Nat.one_mul]
        exact Nat.pow_le_pow_right (by decide) hexponent

/-- A decimal with so many digits in front of the point is not below a power of ten. -/
theorem le_roundUnits_of_count {d : Decimal} {k : Nat} (hpos : 0 < d.digits)
    (h : k < d.exponent + digitCount d.digits) : Binary64.roundUnits (10 ^ k) 1 ≤ d.roundUnits := by
  have hcount : 0 < digitCount d.digits := Nat.length_toDigits_pos
  have hwhole : 0 ≤ d.exponent + (d.exponent.natAbs : Nat) := by omega
  have hexponent : k + d.exponent.natAbs ≤
      digitCount d.digits - 1 + (d.exponent + (d.exponent.natAbs : Nat)).toNat := by omega
  rw [roundUnits_whole d hwhole]
  refine Binary64.roundUnits_mono Nat.one_pos (Nat.pow_pos (by decide)) ?_
  calc 10 ^ k * 10 ^ d.exponent.natAbs
      ≤ 10 ^ (digitCount d.digits - 1) * 10 ^ (d.exponent + (d.exponent.natAbs : Nat)).toNat := by
        rw [← Nat.pow_add, ← Nat.pow_add]
        exact Nat.pow_le_pow_right (by decide) hexponent
    _ ≤ d.digits * 10 ^ (d.exponent + (d.exponent.natAbs : Nat)).toNat * 1 := by
        rw [Nat.mul_one]
        exact Nat.mul_le_mul_right _ (pow_le_of_lt_digitCount hpos (by omega))

/-- A decimal that is rounded to the magnitude of a number is the decimal of this number. -/
theorem toBinary64_eq {d : Decimal} {x : Binary64} (h : d.roundUnits = x.units) :
    d.toBinary64 x.negative = some x := by
  obtain ⟨negative, units, representable⟩ := x
  simp only at h ⊢
  simp only [toBinary64]
  split_ifs with hzero hhuge
  · have hunits : units = 0 := by
      rw [← h]
      rcases hzero with hzero | htiny
      · have hratio : d.ratio.1 = 0 := by
          unfold ratio
          split_ifs <;> simp [hzero]
        rw [roundUnits, hratio, Binary64.roundUnits_zero]
      · have hsmall : Binary64.roundUnits 1 (10 ^ 330) = 0 := by decide +kernel
        exact Nat.eq_zero_of_le_zero (hsmall ▸ roundUnits_le_of_count (by omega))
    subst hunits
    rfl
  · have hpos : 0 < d.digits := by omega
    have hlimit : Binary64.limit ≤ Binary64.roundUnits (10 ^ 310) 1 := by decide +kernel
    have hlarge := hlimit.trans (le_roundUnits_of_count hpos hhuge)
    exact absurd (h ▸ hlarge) (Nat.not_le.2 representable.1)
  · have hratio : Binary64.roundUnits d.ratio.1 d.ratio.2 = units := h
    simp [Binary64.ofRatio, hratio, representable.1]

end Dunning.Decimal
