import Dunning.Number.Binary64
import Mathlib.Tactic.Ring
import Mathlib.Tactic.SplitIfs

/-!
# Rounding to binary64

Rounding depends on the quotient alone and keeps the order of quotients, and a magnitude that is
representable is rounded to itself. So whatever lies between two quotients that are rounded alike
is rounded like them.
-/
namespace Dunning.Binary64

/-! ## The nearest integer -/

theorem nearestEven_mul_right (n d : Nat) {c : Nat} (hc : 0 < c) :
    nearestEven (n * c) (d * c) = nearestEven n d := by
  have hrest : n * c % (d * c) = n % d * c := Nat.mul_mod_mul_right c n d
  have hquotient : n * c / (d * c) = n / d := Nat.mul_div_mul_right n d hc
  have hless : 2 * (n % d * c) < d * c ↔ 2 * (n % d) < d := by
    rw [← Nat.mul_assoc, Nat.mul_lt_mul_right hc]
  have hmore : d * c < 2 * (n % d * c) ↔ d < 2 * (n % d) := by
    rw [← Nat.mul_assoc, Nat.mul_lt_mul_right hc]
  simp only [nearestEven, hrest, hquotient, hless, hmore]

theorem le_nearestEven (n d : Nat) : n / d ≤ nearestEven n d := by
  simp only [nearestEven]
  split_ifs <;> omega

theorem nearestEven_mono {n m : Nat} (h : n ≤ m) (d : Nat) : nearestEven n d ≤ nearestEven m d := by
  rcases Nat.lt_or_eq_of_le (Nat.div_le_div_right (c := d) h) with hlt | hsame
  · calc nearestEven n d ≤ n / d + 1 := nearestEven_le n d
      _ ≤ m / d := hlt
      _ ≤ nearestEven m d := le_nearestEven m d
  · have hrest : n % d ≤ m % d := by
      have hn := Nat.div_add_mod n d
      have hm := Nat.div_add_mod m d
      rw [hsame] at hn
      omega
    simp only [nearestEven, hsame]
    split_ifs <;> omega

/-- A whole quotient is the nearest integer to itself. -/
theorem nearestEven_mul_self (q : Nat) {d : Nat} (hd : 0 < d) : nearestEven (q * d) d = q := by
  simp only [nearestEven, Nat.mul_mod_left, Nat.mul_div_cancel q hd]
  rw [if_pos (by omega)]

/-! ## The nearest magnitude -/

theorem one_pos : 0 < one := by
  unfold one
  generalize depth = k
  exact pow_two_pos k

theorem roundUnits_zero (d : Nat) : roundUnits 0 d = 0 := by simp [roundUnits, nearestEven]

theorem roundUnits_mul_right (n d : Nat) {c : Nat} (hc : 0 < c) :
    roundUnits (n * c) (d * c) = roundUnits n d := by
  have hnum : n * c * one = n * one * c := Nat.mul_right_comm n c one
  have hquotient : n * one * c / (d * c) = n * one / d := Nat.mul_div_mul_right _ _ hc
  simp only [roundUnits, hnum, hquotient, Nat.mul_right_comm d c]
  rw [nearestEven_mul_right _ _ hc]

/-- Quotients are equal when their cross products are. -/
theorem roundUnits_congr {n d n' d' : Nat} (hd : 0 < d) (hd' : 0 < d') (h : n * d' = n' * d) :
    roundUnits n d = roundUnits n' d' := by
  rw [← roundUnits_mul_right n d hd', h, Nat.mul_comm d d', roundUnits_mul_right n' d' hd]

/-- Above 53 bits, the units of the spacing leave exactly 53 of them. -/
theorem two_pow_spacing_le {u : Nat} (h : 0 < spacing u) : 2 ^ 52 * 2 ^ spacing u ≤ u := by
  have hu : u ≠ 0 := by
    rintro rfl
    exact absurd h (by decide)
  have hlog : 52 + spacing u = u.log2 := by
    simp only [spacing] at h ⊢
    omega
  rw [← Nat.pow_add, hlog]
  exact Nat.log2_self_le hu

theorem spacing_mono {u v : Nat} (h : u ≤ v) : spacing u ≤ spacing v := by
  have hlog : u.log2 ≤ v.log2 := by
    rcases Nat.eq_zero_or_pos u with rfl | hu
    · simp
    · exact (Nat.le_log2 (by omega)).2 (Nat.le_trans (Nat.log2_self_le (by omega)) h)
  exact Nat.sub_le_sub_right hlog 52

theorem roundUnits_le_spacing (n d : Nat) :
    roundUnits n d ≤ 2 ^ 53 * 2 ^ spacing (n * one / d) :=
  Nat.mul_le_mul_right _ (nearestEven_spacing_le n d)

theorem spacing_le_roundUnits {n d : Nat} (h : 0 < spacing (n * one / d)) :
    2 ^ 52 * 2 ^ spacing (n * one / d) ≤ roundUnits n d := by
  have hquotient := (Nat.le_div_iff_mul_le (Nat.two_pow_pos _)).2 (two_pow_spacing_le h)
  rw [Nat.div_div_eq_div_mul] at hquotient
  exact Nat.mul_le_mul_right _ (hquotient.trans (le_nearestEven _ _))

/-- Rounding keeps the order of quotients. -/
theorem roundUnits_mono {n d n' d' : Nat} (hd : 0 < d) (hd' : 0 < d') (h : n * d' ≤ n' * d) :
    roundUnits n d ≤ roundUnits n' d' := by
  rw [← roundUnits_mul_right n d hd', ← roundUnits_mul_right n' d' hd, Nat.mul_comm d' d]
  generalize n * d' = a at h ⊢
  generalize n' * d = b at h ⊢
  generalize d * d' = e
  have hunits : a * one ≤ b * one := Nat.mul_le_mul_right one h
  have hspacing := spacing_mono (Nat.div_le_div_right (c := e) hunits)
  rcases Nat.lt_or_eq_of_le hspacing with hlt | hsame
  · calc roundUnits a e ≤ 2 ^ 53 * 2 ^ spacing (a * one / e) := roundUnits_le_spacing a e
      _ = 2 ^ 52 * 2 ^ (spacing (a * one / e) + 1) := by ring
      _ ≤ 2 ^ 52 * 2 ^ spacing (b * one / e) :=
        Nat.mul_le_mul_left _ (Nat.pow_le_pow_right (by decide) hlt)
      _ ≤ roundUnits b e := spacing_le_roundUnits (by omega)
  · simp only [roundUnits, hsame]
    exact Nat.mul_le_mul_right _ (nearestEven_mono hunits _)

/-- Significant bits stand at or above the spacing. -/
theorem spacing_dvd {m j : Nat} (h : m < 2 ^ 53) : 2 ^ spacing (m * 2 ^ j) ∣ m * 2 ^ j := by
  rcases Nat.eq_zero_or_pos (spacing (m * 2 ^ j)) with hzero | hpos
  · rw [hzero]
    exact Nat.one_dvd _
  · have hle : spacing (m * 2 ^ j) ≤ j := by
      have hlow := two_pow_spacing_le hpos
      have hhigh : m * 2 ^ j < 2 ^ 53 * 2 ^ j := Nat.mul_lt_mul_of_pos_right h (Nat.two_pow_pos j)
      have hexp : 52 + spacing (m * 2 ^ j) < 53 + j := by
        rw [← Nat.pow_add] at hlow hhigh
        exact (Nat.pow_lt_pow_iff_right (by decide)).1 (Nat.lt_of_le_of_lt hlow hhigh)
      omega
    exact Nat.dvd_trans (Nat.pow_dvd_pow 2 hle) (Nat.dvd_mul_left _ m)

/-- A magnitude with at most 53 significant bits is rounded to itself. -/
theorem roundUnits_self {m j : Nat} (h : m < 2 ^ 53) : roundUnits (m * 2 ^ j) one = m * 2 ^ j := by
  obtain ⟨q, hq⟩ := spacing_dvd (j := j) h
  have hunit : 0 < 2 ^ spacing (m * 2 ^ j) := Nat.two_pow_pos _
  simp only [roundUnits, Nat.mul_div_cancel _ one_pos, Nat.pow_eq]
  generalize 2 ^ spacing (m * 2 ^ j) = unit at hq hunit ⊢
  have hsplit : m * 2 ^ j * one = q * (one * unit) := by
    rw [hq]
    ring
  rw [hsplit, nearestEven_mul_self q (Nat.mul_pos one_pos hunit), hq, Nat.mul_comm]

theorem roundUnits_of_representable {u : Nat} (h : Representable u) : roundUnits u one = u := by
  obtain ⟨-, m, k, hm, rfl⟩ := h
  exact roundUnits_self hm

end Dunning.Binary64
