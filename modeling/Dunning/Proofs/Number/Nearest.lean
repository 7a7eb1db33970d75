import Dunning.Proofs.Number.Decimal
import Mathlib.Data.Nat.Dist

/-!
# The nearest magnitude

No magnitude with 53 significant bits is nearer to a quotient than the one that it is rounded to.
Two such magnitudes are apart by more than a part in `2 ^ 54` of either, so that whatever is this
close to one of them is rounded to it. Of the two neighbours of a magnitude on the grid of 17 decimal
digits, one is.
-/
namespace Dunning

namespace Binary64

/-- Whether a magnitude has at most 53 significant bits. -/
def Significant (u : Nat) : Prop := ∃ m k, m < 2 ^ 53 ∧ u = m * 2 ^ k

theorem significant_roundUnits (n d : Nat) : Significant (roundUnits n d) := roundUnits_significant n d

theorem Representable.significant {u : Nat} (h : Representable u) : Significant u := h.2

/-- No multiple is nearer than that of the nearest integer. -/
theorem dist_nearestEven_le (n : Nat) {d : Nat} (hd : 0 < d) (z : Nat) :
    Nat.dist (nearestEven n d * d) n ≤ Nat.dist (z * d) n := by
  have hn := Nat.div_add_mod n d
  have hrest := Nat.mod_lt n hd
  have hnext : (n / d + 1) * d = n / d * d + d := Nat.succ_mul _ _
  have hz : z * d ≤ n / d * d ∨ n / d * d + d ≤ z * d := by
    rcases Nat.lt_or_ge (n / d) z with h | h
    · exact .inr (hnext ▸ Nat.mul_le_mul_right d h)
    · exact .inl (Nat.mul_le_mul_right d h)
  rw [Nat.mul_comm d] at hn
  have heven : n / d % 2 = 0 ∨ n / d % 2 = 1 := Nat.mod_two_eq_zero_or_one _
  simp only [nearestEven, Nat.dist]
  split_ifs
  · omega
  · rw [hnext]
    omega
  · rcases heven with heven | heven
    · rw [heven, Nat.add_zero]
      omega
    · rw [heven, hnext]
      omega

/-- No magnitude with 53 significant bits is nearer than the rounded one. -/
theorem dist_roundUnits_le (n : Nat) {d w : Nat} (hd : 0 < d) (hw : Significant w) :
    Nat.dist (roundUnits n d * d) (n * one) ≤ Nat.dist (w * d) (n * one) := by
  obtain ⟨m, j, hm, rfl⟩ := hw
  generalize hk : spacing (n * one / d) = k
  have hunit : 0 < d * 2 ^ k := Nat.mul_pos hd (Nat.two_pow_pos k)
  have hround : roundUnits n d * d = nearestEven (n * one) (d * 2 ^ k) * (d * 2 ^ k) := by
    simp only [roundUnits, hk, Nat.pow_eq]
    rw [Nat.mul_assoc, Nat.mul_comm (2 ^ k)]
  rw [hround]
  rcases Nat.lt_or_ge j k with hj | hj
  · -- Where the magnitude has bits below the spacing, it is below all that have 53 bits above it.
    refine (dist_nearestEven_le (n * one) hunit (2 ^ 52)).trans ?_
    have hlow : 2 ^ 52 * 2 ^ k ≤ n * one / d := by
      rw [← hk]
      exact two_pow_spacing_le (by omega)
    have hbelow : m * 2 ^ j ≤ 2 ^ 52 * 2 ^ k :=
      calc m * 2 ^ j ≤ 2 ^ 53 * 2 ^ j := Nat.mul_le_mul_right _ hm.le
        _ = 2 ^ 52 * 2 ^ (j + 1) := by ring
        _ ≤ 2 ^ 52 * 2 ^ k := Nat.mul_le_mul_left _ (Nat.pow_le_pow_right (by decide) hj)
    have hproduct := (Nat.le_div_iff_mul_le hd).1 hlow
    have hless := Nat.mul_le_mul_right d hbelow
    have hsame : 2 ^ 52 * (d * 2 ^ k) = 2 ^ 52 * 2 ^ k * d := by ring
    rw [hsame]
    simp only [Nat.dist]
    omega
  · have hmultiple : m * 2 ^ j * d = m * 2 ^ (j - k) * (d * 2 ^ k) := by
      obtain ⟨i, rfl⟩ := Nat.exists_eq_add_of_le hj
      rw [Nat.add_sub_cancel_left]
      ring
    rw [hmultiple]
    exact dist_nearestEven_le (n * one) hunit _

/-- Magnitudes with 53 significant bits are apart by a part in `2 ^ 53` of the larger one. -/
theorem le_mul_sub {a b : Nat} (ha : Significant a) (hb : Significant b) (h : a < b) :
    b ≤ (b - a) * 2 ^ 53 := by
  obtain ⟨m, i, hm, rfl⟩ := ha
  obtain ⟨l, j, hl, rfl⟩ := hb
  -- Both are multiples of the smaller unit, and so is their difference.
  have hunit : ∀ k, k ≤ i → k ≤ j → 2 ^ k ≤ l * 2 ^ j - m * 2 ^ i := by
    intro k hki hkj
    refine Nat.le_of_dvd (Nat.sub_pos_of_lt h) (Nat.dvd_sub ?_ ?_)
    · exact Nat.dvd_mul_left_of_dvd (Nat.pow_dvd_pow 2 hkj) l
    · exact Nat.dvd_mul_left_of_dvd (Nat.pow_dvd_pow 2 hki) m
  rcases Nat.lt_or_ge i j with hij | hij
  · have hdifference := hunit i (Nat.le_refl i) hij.le
    have hm' : m * 2 ^ i + 2 ^ i ≤ 2 ^ 53 * 2 ^ i := by
      rw [← Nat.succ_mul]
      exact Nat.mul_le_mul_right _ hm
    rcases Nat.lt_or_ge (l * 2 ^ j) (2 ^ 53 * 2 ^ i) with hb | hb
    · omega
    · omega
  · have hdifference := hunit j hij (Nat.le_refl j)
    have hl' : l * 2 ^ j ≤ 2 ^ 53 * 2 ^ j := Nat.mul_le_mul_right _ hl.le
    omega

/-- What is closer to a magnitude than half of a part in `2 ^ 53` is rounded to it. -/
theorem roundUnits_of_close {u n d : Nat} (hu : Significant u) (hd : 0 < d)
    (h : 2 ^ 54 * Nat.dist (u * d) (n * one) < u * d) : roundUnits n d = u := by
  have hnearest := dist_roundUnits_le n hd hu
  have hapart : ∀ {a b : Nat}, Significant a → Significant b → a < b →
      b * d ≤ (b * d - a * d) * 2 ^ 53 := by
    intro a b ha hb hab
    rw [← Nat.sub_mul, Nat.mul_right_comm]
    exact Nat.mul_le_mul_right d (le_mul_sub ha hb hab)
  rcases Nat.lt_trichotomy (roundUnits n d) u with hlt | heq | hgt
  · have hless := hapart (significant_roundUnits n d) hu hlt
    simp only [Nat.dist] at h hnearest
    omega
  · exact heq
  · have hless := hapart hu (significant_roundUnits n d) hgt
    have hmore : u * d ≤ roundUnits n d * d := Nat.mul_le_mul_right d hgt.le
    simp only [Nat.dist] at h hnearest
    omega

end Binary64

namespace Decimal

open Binary64 (Representable)

/-! ## Seventeen digits -/

theorem exact_digits_mul_one (u : Nat) :
    (exact u).digits * Binary64.one = u * 10 ^ Binary64.depth := by
  unfold exact Binary64.one
  generalize Binary64.depth = k
  rw [Nat.pow_eq, Nat.pow_eq, Nat.mul_assoc, ← Nat.mul_pow]

/-- A decimal on a grid, in the units of the full expansion. -/
theorem roundUnits_grid (c drop : Nat) :
    roundUnits ⟨c, (drop : Int) - Binary64.depth⟩ =
      Binary64.roundUnits (c * 10 ^ drop) (10 ^ Binary64.depth) := by
  have hexponent : ((drop : Int) - Binary64.depth + (Binary64.depth : Nat)).toNat = drop := by omega
  have hplaces : 0 ≤ (drop : Int) - Binary64.depth + (Binary64.depth : Nat) := by omega
  rw [roundUnits_whole _ hplaces]
  simp only [hexponent]

/-- A decimal that differs from a magnitude by less than half of a part in `2 ^ 53` of it. -/
theorem roundUnits_grid_of_close {u c drop : Nat} (hu : Representable u)
    (h : 2 ^ 54 * Nat.dist (exact u).digits (c * 10 ^ drop) < (exact u).digits) :
    roundUnits ⟨c, (drop : Int) - Binary64.depth⟩ = u := by
  rw [roundUnits_grid]
  refine Binary64.roundUnits_of_close hu.significant (Nat.pow_pos (by decide)) ?_
  rw [← exact_digits_mul_one, Nat.dist_mul_right, ← Nat.mul_assoc]
  exact Nat.mul_lt_mul_of_pos_right h Binary64.one_pos

/-- Of the neighbours of a magnitude on a grid with 17 digits, the nearer one reads back. -/
theorem roundUnits_neighbour {u drop : Nat} (hu : Representable u)
    (h : 10 ^ (drop + 16) ≤ (exact u).digits) :
    roundUnits ⟨(exact u).digits / 10 ^ drop, (drop : Int) - Binary64.depth⟩ = u ∨
      roundUnits ⟨(exact u).digits / 10 ^ drop + 1, (drop : Int) - Binary64.depth⟩ = u := by
  have hclose : ∀ c, 2 ^ 54 * Nat.dist (exact u).digits (c * 10 ^ drop) < (exact u).digits →
      roundUnits ⟨c, (drop : Int) - Binary64.depth⟩ = u := fun c => roundUnits_grid_of_close hu
  rw [Nat.pow_add] at h
  have hgrid : 0 < 10 ^ drop := Nat.pow_pos (by decide)
  generalize (exact u).digits = n at h hclose ⊢
  generalize 10 ^ drop = grid at h hclose hgrid ⊢
  have hdigits := Nat.div_add_mod n grid
  have hrest := Nat.mod_lt n hgrid
  have hnext : (n / grid + 1) * grid = grid * (n / grid) + grid := by
    rw [Nat.succ_mul, Nat.mul_comm]
  rcases Nat.lt_or_ge (2 * (n % grid)) grid with hlow | hhigh
  · refine .inl (hclose _ ?_)
    rw [Nat.mul_comm (n / grid)]
    simp only [Nat.dist]
    omega
  · refine .inr (hclose _ ?_)
    rw [hnext]
    simp only [Nat.dist]
    omega

theorem exists_onGrid {u drop : Nat} (tie : Tie) (hu : Representable u)
    (h : 10 ^ (drop + 16) ≤ (exact u).digits) : ∃ d, onGrid tie u (exact u).digits drop = some d := by
  have hneighbour := roundUnits_neighbour hu h
  simp only [onGrid, beq_iff_eq, Nat.pow_eq]
  rcases hneighbour with hbelow | habove
  · rw [if_pos hbelow]
    split_ifs <;> cases tie <;> exact ⟨_, rfl⟩
  · rw [if_pos habove]
    split_ifs <;> cases tie <;> exact ⟨_, rfl⟩

/-- Zeros at the end of the digits are counted by the exponent. -/
theorem exists_strip (d : Decimal) : ∃ zeros : Nat,
    d = ⟨d.strip.digits * 10 ^ zeros, d.strip.exponent - zeros⟩ := by
  induction d using strip.induct with
  | case1 d hzero ih =>
    obtain ⟨zeros, heq⟩ := ih
    obtain ⟨digits, exponent⟩ := d
    dsimp only at hzero heq
    obtain ⟨hdigits, hexponent⟩ := Decimal.mk.inj heq
    refine ⟨zeros + 1, ?_⟩
    rw [strip, dif_pos hzero, Nat.pow_succ, ← Nat.mul_assoc]
    dsimp only
    rw [← hdigits, mk.injEq]
    omega
  | case2 d hlast => exact ⟨0, by rw [strip, dif_neg hlast]; simp⟩

theorem digits_strip_le (d : Decimal) : d.strip.digits ≤ d.digits := by
  obtain ⟨zeros, heq⟩ := exists_strip d
  have hdigits : d.digits = d.strip.digits * 10 ^ zeros := congrArg digits heq
  rw [hdigits]
  exact Nat.le_mul_of_pos_right _ (Nat.pow_pos (by decide))

/-- What is found first among more indices than a given one with a result is found up to it. -/
theorem findSome?_range {α : Type} {f : Nat → Option α} {i count : Nat} {a : α} (h : f i = some a)
    (hi : i < count) : ∃ j ≤ i, ∃ b, (List.range count).findSome? f = some b ∧ f j = some b := by
  obtain ⟨more, rfl⟩ := Nat.exists_eq_add_of_lt hi
  have hsome : ((List.range (i + 1)).findSome? f).isSome := by
    rw [List.findSome?_isSome_iff]
    exact ⟨i, List.mem_range.2 (Nat.lt_succ_self i), h ▸ rfl⟩
  obtain ⟨b, hb⟩ := Option.isSome_iff_exists.1 hsome
  obtain ⟨j, hj, hfound⟩ := List.exists_of_findSome?_eq_some hb
  refine ⟨j, Nat.lt_succ_iff.1 (List.mem_range.1 hj), b, ?_, hfound⟩
  rw [Nat.add_right_comm, List.range_add, List.findSome?_append, hb, Option.some_or]

/-- The shortest decimal is found on a grid with 17 digits or fewer, unless it is the full expansion
of so many. -/
theorem shortest_eq_strip (tie : Tie) {u : Nat} (hu : Representable u) : ∃ d : Decimal,
    shortest tie u = d.strip ∧ d.digits ≤ 10 ^ 17 ∧
      (d = exact u ∨ ∃ drop, onGrid tie u (exact u).digits drop = some d) := by
  have hlarge := lt_pow_digitCount (exact u).digits
  have hdigits : ∀ drop d, onGrid tie u (exact u).digits drop = some d →
      digitCount (exact u).digits ≤ drop + 17 → d.digits ≤ 10 ^ 17 := by
    intro drop d hgrid hdrop
    have hquotient : (exact u).digits / 10 ^ drop < 10 ^ 17 := by
      rw [Nat.div_lt_iff_lt_mul (Nat.pow_pos (by decide)), ← Nat.pow_add]
      exact Nat.lt_of_lt_of_le hlarge (Nat.pow_le_pow_right (by decide) (by omega))
    obtain ⟨-, hneighbour, -⟩ := of_onGrid hgrid
    omega
  simp only [shortest]
  generalize hcount : digitCount (exact u).digits = count at hlarge hdigits ⊢
  rcases Nat.lt_or_ge 16 count with hlong | hshort
  · have hpos : 0 < (exact u).digits := by
      refine Nat.pos_of_ne_zero fun hzero => ?_
      rw [hzero] at hcount
      have hone : digitCount 0 = 1 := rfl
      omega
    have hgrid : 10 ^ (count - 1 - 16 + 16) ≤ (exact u).digits :=
      pow_le_of_lt_digitCount hpos (by omega)
    obtain ⟨d, hd⟩ := exists_onGrid tie hu hgrid
    obtain ⟨i, hi, d, hfirst, hd⟩ := findSome?_range
      (f := fun i => onGrid tie u (exact u).digits (count - 1 - i)) hd hlong
    exact ⟨d, by rw [hfirst]; rfl, hdigits _ d hd (by omega), .inr ⟨_, hd⟩⟩
  · cases hfound : (List.range count).findSome? fun i =>
        onGrid tie u (exact u).digits (count - 1 - i) with
    | none =>
      have hpow : 10 ^ count ≤ 10 ^ 17 := Nat.pow_le_pow_right (by decide) (by omega)
      exact ⟨exact u, rfl, hlarge.le.trans hpow, .inl rfl⟩
    | some d =>
      obtain ⟨i, -, hd⟩ := List.exists_of_findSome?_eq_some hfound
      exact ⟨d, rfl, hdigits _ d hd (by omega), .inr ⟨_, hd⟩⟩

theorem digits_shortest_le (tie : Tie) {u : Nat} (hu : Representable u) :
    (shortest tie u).digits ≤ 10 ^ 17 := by
  obtain ⟨d, hstrip, hdigits, -⟩ := shortest_eq_strip tie hu
  rw [hstrip]
  exact (digits_strip_le d).trans hdigits

theorem digits_shortest_pos (tie : Tie) {u : Nat} (hu : Representable u) (hpos : 0 < u) :
    0 < (shortest tie u).digits := by
  refine Nat.pos_of_ne_zero fun hzero => hpos.ne' ?_
  rw [← roundUnits_shortest tie hu, roundUnits, ratio, hzero]
  split_ifs <;> simp [Binary64.roundUnits_zero]

end Decimal

end Dunning
