import Dunning.Proofs.Number.Nearest
import Dunning.Proofs.Number.Whole

/-!
# Quick reading stays in range

A document literal is scaled by rounded powers of ten, so that a number may come back as one of its
neighbours. None of the shortest decimals is scaled past the range of numbers. It is close: of the
decimals with 17 digits that are rounded to the largest number, one is scaled past it, but another
one is nearer to this number and is written instead.
-/
namespace Dunning

open Binary64 (Representable Significant limit one roundUnits)

namespace NumberLiteral

theorem roundUnits_whole_mono {n n' : Nat} (h : n ≤ n') : roundUnits n 1 ≤ roundUnits n' 1 :=
  Binary64.roundUnits_mono Nat.one_pos Nat.one_pos (Nat.mul_le_mul_right 1 h)

theorem one_le_roundUnits (p : Nat) : one ≤ roundUnits (Nat.pow 10 p) 1 := by
  have hone : roundUnits 1 1 = one := by
    rw [Binary64.roundUnits_one, Binary64.nearestWhole_of_lt (by decide), Nat.one_mul]
  rw [← hone]
  exact roundUnits_whole_mono (Nat.pow_pos (by decide))

theorem roundUnits_one_eq_self {u : Nat} (hu : Significant u) : roundUnits u one = u := by
  obtain ⟨m, k, hm, rfl⟩ := hu
  exact Binary64.roundUnits_self hm

/-- Dividing by a power of ten does not make a magnitude larger. -/
theorem roundUnits_power_le {u : Nat} (hu : Significant u) (p : Nat) :
    roundUnits u (roundUnits (Nat.pow 10 p) 1) ≤ u := by
  have hpower := one_le_roundUnits p
  calc roundUnits u (roundUnits (Nat.pow 10 p) 1) ≤ roundUnits u one :=
        Binary64.roundUnits_mono (Nat.lt_of_lt_of_le Binary64.one_pos hpower) Binary64.one_pos
          (Nat.mul_le_mul_left _ hpower)
    _ = u := roundUnits_one_eq_self hu

theorem scaleDown_le {u : Nat} (hu : Significant u) (p : Nat) : scaleDown u p ≤ u := by
  induction u, p using scaleDown.induct with
  | case1 u p hp =>
    rw [scaleDown, if_pos hp]
    exact roundUnits_power_le hu p
  | case2 p hp => simp [scaleDown, hp]
  | case3 u p hp hzero ih =>
    rw [scaleDown, if_neg hp, if_neg hzero]
    refine (ih (Binary64.significant_roundUnits u _)).trans ?_
    apply roundUnits_power_le hu

theorem exists_ofRatio (negative : Bool) {n d : Nat} (h : roundUnits n d < limit) :
    ∃ x, Binary64.ofRatio negative n d = some x := by
  simp [Binary64.ofRatio, h]

/-- Significands are scaled down within the range. -/
theorem exists_scale_of_neg (negative : Bool) {s : Nat} (hs : s ≤ 2 ^ 64) {e : Int} (he : e < 0) :
    ∃ x, scale negative s e = some x := by
  simp only [scale, if_pos he]
  refine exists_ofRatio negative ?_
  calc roundUnits (scaleDown (roundUnits s 1) e.natAbs) one
      ≤ roundUnits (roundUnits s 1) one :=
        Binary64.roundUnits_mono Binary64.one_pos Binary64.one_pos
          (Nat.mul_le_mul_right _ (scaleDown_le (Binary64.significant_roundUnits s 1) _))
    _ = roundUnits s 1 := roundUnits_one_eq_self (Binary64.significant_roundUnits s 1)
    _ < limit := Binary64.roundUnits_lt_limit hs

/-- A significand times a power of ten, both rounded, and the product rounded. -/
def scaledUp (s p : Nat) : Nat := roundUnits (roundUnits s 1 * roundUnits (10 ^ p) 1) (one * one)

theorem scaledUp_mono {s s' p p' : Nat} (hs : s ≤ s') (hp : p ≤ p') : scaledUp s p ≤ scaledUp s' p' := by
  have hone : 0 < one * one := Nat.mul_pos Binary64.one_pos Binary64.one_pos
  exact Binary64.roundUnits_mono hone hone (Nat.mul_le_mul_right _
    (Nat.mul_le_mul (roundUnits_whole_mono hs)
      (roundUnits_whole_mono (Nat.pow_le_pow_right (by decide) hp))))

theorem exists_scale_of_nonneg (negative : Bool) {s p : Nat} (hp : p ≤ 308) (h : scaledUp s p < limit) :
    ∃ x, scale negative s p = some x := by
  have hnonneg : ¬(p : Int) < 0 := by omega
  simp only [scale, if_neg hnonneg, Int.natAbs_natCast, if_pos hp]
  exact exists_ofRatio negative h

end NumberLiteral

namespace Decimal

/-- The decimal past the range is not the one that is nearest to the largest number. -/
theorem shortest_ne {u : Nat} (hu : Representable u) :
    shortest .even u ≠ ⟨17976931348623158, 292⟩ := by
  intro h
  obtain ⟨d, hstrip, hdigits, hfound⟩ := shortest_eq_strip .even hu
  obtain ⟨zeros, hd⟩ := exists_strip d
  rw [← hstrip, h] at hd
  dsimp only at hd
  obtain rfl : zeros = 0 := by
    rw [hd] at hdigits
    dsimp only at hdigits
    by_contra hzeros
    have hten : 10 ^ 1 ≤ 10 ^ zeros := Nat.pow_le_pow_right (by decide) (by omega)
    omega
  obtain rfl : d = ⟨17976931348623158, 292⟩ := hd
  rcases hfound with hexact | ⟨drop, hgrid⟩
  · have hexponent : (292 : Int) = -(Binary64.depth : Nat) := congrArg Decimal.exponent hexact
    exact absurd hexponent (by decide)
  · obtain ⟨hexponent, -, rfl⟩ := of_onGrid hgrid
    obtain rfl : drop = 1366 := by
      simp only [Binary64.depth] at hexponent
      omega
    revert hgrid
    decide +kernel

/-- A whole decimal is rounded as the integer that it is. -/
theorem roundUnits_natCast (s p : Nat) : roundUnits ⟨s, p⟩ = Binary64.roundUnits (s * 10 ^ p) 1 := by
  have hnonneg : ¬(p : Int) < 0 := by omega
  simp [roundUnits, ratio, hnonneg]

theorem lt_of_roundUnits_lt {n c power : Nat} (past : limit ≤ Binary64.roundUnits (c * power) 1)
    (h : Binary64.roundUnits (n * power) 1 < limit) : n < c := by
  by_contra hlarge
  have hmono := NumberLiteral.roundUnits_whole_mono (Nat.mul_le_mul_right power (Nat.not_lt.1 hlarge))
  exact Nat.not_lt.2 (past.trans hmono) h

/-- The shortest decimals of the largest numbers do not have more digits than that of the largest. -/
theorem digits_mul_le {u s q : Nat} (hu : Representable u)
    (h : shortest .even u = ⟨s, (292 + q : Nat)⟩) : s * 10 ^ q ≤ 17976931348623157 := by
  have hround := roundUnits_shortest .even hu
  have hne := shortest_ne hu
  rw [h] at hround hne
  have hlt : s * 10 ^ q < 17976931348623159 := by
    obtain ⟨p, hp⟩ : ∃ p, p = 292 := ⟨_, rfl⟩
    have hpast : limit ≤ Binary64.roundUnits (17976931348623159 * 10 ^ p) 1 := by
      rw [hp]
      decide +kernel
    rw [← hp, roundUnits_natCast, Nat.add_comm, Nat.pow_add, ← Nat.mul_assoc] at hround
    exact lt_of_roundUnits_lt hpast (hround ▸ hu.1)
  rcases Nat.eq_zero_or_pos q with rfl | hq
  · have hs : s ≠ 17976931348623158 := by
      rintro rfl
      exact hne rfl
    omega
  · -- More zeros behind the digits than two cannot be those of the refused decimal.
    obtain ⟨zeros, rfl⟩ := Nat.exists_eq_succ_of_ne_zero hq.ne'
    rw [Nat.pow_succ, ← Nat.mul_assoc] at hlt ⊢
    omega

/-- The shortest decimal of a number is scaled to a number. -/
theorem exists_scale_shortest (negative : Bool) {u : Nat} (hu : Representable u) (hpos : 0 < u) :
    ∃ x, NumberLiteral.scale negative (shortest .even u).digits (shortest .even u).exponent = some x := by
  have hs := digits_shortest_pos .even hu hpos
  have hdigits := digits_shortest_le .even hu
  have hmul := fun s q => digits_mul_le (s := s) (q := q) hu
  generalize shortest .even u = d at hs hdigits hmul ⊢
  obtain ⟨s, e⟩ := d
  dsimp only at hs hdigits ⊢
  rcases Int.lt_or_le e 0 with hneg | hnonneg
  · exact NumberLiteral.exists_scale_of_neg negative (hdigits.trans (by decide)) hneg
  obtain ⟨p, rfl⟩ := Int.eq_ofNat_of_zero_le hnonneg
  rcases Nat.lt_or_ge p 292 with hlow | hhigh
  · have hsmall : NumberLiteral.scaledUp (10 ^ 17) 291 < limit := by decide +kernel
    exact NumberLiteral.exists_scale_of_nonneg negative (by omega)
      (Nat.lt_of_le_of_lt (NumberLiteral.scaledUp_mono hdigits (by omega)) hsmall)
  · obtain ⟨q, rfl⟩ := Nat.exists_eq_add_of_le hhigh
    have hproduct := hmul s q rfl
    have hq : q < 17 := by
      by_contra hmany
      have hten : 10 ^ 17 ≤ 10 ^ q := Nat.pow_le_pow_right (by decide) (Nat.not_lt.1 hmany)
      have hle : 10 ^ q ≤ s * 10 ^ q := Nat.le_mul_of_pos_left _ hs
      omega
    have hlarge : ∀ q < 17, NumberLiteral.scaledUp (17976931348623157 / 10 ^ q) (292 + q) < limit := by
      decide +kernel
    have hquotient : s ≤ 17976931348623157 / 10 ^ q :=
      (Nat.le_div_iff_mul_le (Nat.pow_pos (by decide))).2 hproduct
    exact NumberLiteral.exists_scale_of_nonneg negative (by omega)
      (Nat.lt_of_le_of_lt (NumberLiteral.scaledUp_mono hquotient (Nat.le_refl _)) (hlarge q hq))

end Decimal

end Dunning
