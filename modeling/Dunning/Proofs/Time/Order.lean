import Dunning.Time.Timestamp
import Mathlib.Data.Nat.Digits.Defs

/-!
# Timestamps in the order of time

From the year 0000 to 9999, the timestamps of instants in universal time are in the same
order as texts as the instants are in time. Every number stands in a field of fixed width,
the larger units come first, and a shorter fraction ends with a sign that comes before the
digits. What is sorted by time stays in its order where the times are equal.
-/
namespace Dunning

namespace Instant

theorem le_iff {a b : Instant} :
    a.le b = true ↔ a.seconds < b.seconds ∨ (a.seconds = b.seconds ∧ a.nanos ≤ b.nanos) := by
  simp [le]

@[simp] theorem le_refl (a : Instant) : a.le a = true := le_iff.2 (.inr ⟨rfl, Nat.le_refl _⟩)

theorem le_trans {a b c : Instant} (hab : a.le b = true) (hbc : b.le c = true) : a.le c = true := by
  rw [le_iff] at *
  omega

theorem le_total (a b : Instant) : a.le b = true ∨ b.le a = true := by
  rw [le_iff, le_iff]
  omega

theorem le_antisymm {a b : Instant} (hab : a.le b = true) (hba : b.le a = true) : a = b := by
  rw [le_iff] at *
  obtain ⟨seconds, nanos, valid⟩ := a
  obtain ⟨seconds', nanos', valid'⟩ := b
  have hsame : seconds = seconds' ∧ nanos = nanos' := by
    simp only at hab hba
    omega
  simp [hsame]

theorem le_of_not_le {a b : Instant} (h : ¬a.le b = true) : b.le a = true :=
  (le_total a b).resolve_left h

/-- Adding hours does not lead back. -/
theorem le_addHours {t later : Instant} {hours : Nat} (h : t.addHours hours = some later) :
    t.le later = true := by
  unfold addHours at h
  split at h
  · rw [← Option.some.inj h, le_refl]
  · unfold ofSeconds? at h
    split at h
    · rw [← Option.some.inj h, le_iff]
      simp only
      omega
    · cases h

end Instant

/-- A stable sort leaves items alone that are tied with each other. -/
theorem filter_mergeSort {α : Type} {le : α → α → Bool} (trans : ∀ a b c, le a b → le b c → le a c)
    (total : ∀ a b, (le a b || le b a) = true) {p : α → Bool}
    (tied : ∀ a b, p a → p b → le a b = true) (items : List α) : (items.mergeSort le).filter p = items.filter p := by
  have hinOrder : (items.filter p).Pairwise fun a b => le a b = true :=
    List.pairwise_iff_forall_sublist.2 fun hab =>
      tied _ _ (List.mem_filter.1 (hab.subset List.mem_cons_self)).2
        (List.mem_filter.1 (hab.subset (List.mem_cons_of_mem _ List.mem_cons_self))).2
  have hkept := (List.sublist_mergeSort trans total hinOrder List.filter_sublist).filter p
  simp only [List.filter_filter, Bool.and_self] at hkept
  exact (hkept.eq_of_length ((List.mergeSort_perm items le).filter p).length_eq.symm).symm

namespace CalendarDate

/-- Whether a date comes before another one: by year, then by month, then by day. -/
def Before (d e : CalendarDate) : Prop :=
  d.year < e.year ∨ d.year = e.year ∧ (d.month < e.month ∨ d.month = e.month ∧ d.day < e.day)

/-- How many whole units, but at most `most`, there are in a number of days. -/
def units (days unit most : Nat) : Nat := min (days / unit) most

/-- The days past the whole centuries of a cycle. -/
def inCentury (inCycle : Nat) : Nat := inCycle - units inCycle 36524 3 * 36524

/-- The days past the whole years of a group of four. -/
def inYear (inGroup : Nat) : Nat := inGroup - units inGroup 365 3 * 365

/-- The years of a number of days in a cycle of 400 years. -/
def yearsOf (inCycle : Nat) : Nat :=
  units inCycle 36524 3 * 100 + inCentury inCycle / 1461 * 4 +
    units (inCentury inCycle % 1461) 365 3

/-- The days past the whole years of a cycle. -/
def dayOf (inCycle : Nat) : Nat := inYear (inCentury inCycle % 1461)

/-- A day of a year that begins in March. -/
def ofMarch (year : Int) (inYear : Nat) : CalendarDate :=
  let month := (5 * inYear + 2) / 153
  let day := inYear - daysBefore month + 1
  if month < 10 then ⟨year, month + 3, day⟩ else ⟨year + 1, month - 9, day⟩

theorem ofDays_eq (days : Int) : ofDays days =
    ofMarch ((days + epochShift) / 146097 * 400 + (yearsOf ((days + epochShift) % 146097).toNat : Nat))
      (dayOf ((days + epochShift) % 146097).toNat) := rfl

/-- More days are more units, or as many and a longer rest. -/
theorem units_lt_or_rest_lt {x y : Nat} (unit most : Nat) (h : x < y) :
    units x unit most < units y unit most ∨ units x unit most = units y unit most ∧
      x - units x unit most * unit < y - units y unit most * unit := by
  have hquotient : x / unit ≤ y / unit := Nat.div_le_div_right (Nat.le_of_lt h)
  rcases Nat.lt_or_ge (units x unit most) (units y unit most) with hlt | hge
  · exact .inl hlt
  have hsame : units x unit most = units y unit most := by
    unfold units at *
    omega
  have hwhole : units x unit most * unit ≤ x :=
    Nat.le_trans (Nat.mul_le_mul_right unit (Nat.min_le_left _ _)) (Nat.div_mul_le_self x unit)
  refine .inr ⟨hsame, ?_⟩
  rw [← hsame]
  omega

theorem inCentury_le {n : Nat} (h : n < 146097) : units n 36524 3 ≤ 3 ∧ inCentury n ≤ 36524 := by
  unfold inCentury units
  omega

theorem inYear_le {n : Nat} (h : n < 1461) : units n 365 3 ≤ 3 ∧ inYear n ≤ 365 := by
  unfold inYear units
  omega

/-- Later days of a cycle are in a later year, or later in the same year. -/
theorem yearsOf_lt_or_dayOf_lt {m n : Nat} (h : m < n) (hn : n < 146097) :
    yearsOf m < yearsOf n ∨ yearsOf m = yearsOf n ∧ dayOf m < dayOf n := by
  obtain ⟨hcenturyM, hinM⟩ := inCentury_le (Nat.lt_trans h hn)
  obtain ⟨hcenturyN, hinN⟩ := inCentury_le hn
  obtain ⟨hsingleM, -⟩ := inYear_le (Nat.mod_lt (inCentury m) (show 0 < 1461 by decide))
  obtain ⟨hsingleN, -⟩ := inYear_le (Nat.mod_lt (inCentury n) (show 0 < 1461 by decide))
  have hcentury := units_lt_or_rest_lt 36524 3 h
  change _ ∨ _ ∧ inCentury m < inCentury n at hcentury
  unfold yearsOf dayOf
  rcases hcentury with hlt | ⟨hsame, hlt⟩
  · exact .inl (by omega)
  rcases Nat.lt_or_ge (inCentury m / 1461) (inCentury n / 1461) with hgroup | hgroup
  · exact .inl (by omega)
  have hrest : inCentury m % 1461 < inCentury n % 1461 := by omega
  have hsingle := units_lt_or_rest_lt 365 3 hrest
  change _ ∨ _ ∧ inYear _ < inYear _ at hsingle
  rcases hsingle with hlt' | ⟨hsame', hlt'⟩
  · exact .inl (by omega)
  · exact .inr ⟨by omega, hlt'⟩

theorem yearsOf_lt {n : Nat} (h : n < 146097) : yearsOf n < 400 := by
  obtain ⟨hcentury, hin⟩ := inCentury_le h
  obtain ⟨hsingle, -⟩ := inYear_le (Nat.mod_lt (inCentury n) (show 0 < 1461 by decide))
  unfold yearsOf
  omega

theorem dayOf_le (n : Nat) : dayOf n ≤ 365 :=
  (inYear_le (Nat.mod_lt (inCentury n) (by decide))).2

/-- The fields of a date are short. -/
theorem ofMarch_le (year : Int) {n : Nat} (h : n ≤ 365) :
    (ofMarch year n).month ≤ 12 ∧ (ofMarch year n).day ≤ 31 := by
  simp only [ofMarch, daysBefore]
  split <;> simp only <;> omega

/-- Later days of years that begin in March are later dates. -/
theorem ofMarch_before {y y' : Int} {n n' : Nat} (hn : n ≤ 365) (hn' : n' ≤ 365)
    (h : y < y' ∨ y = y' ∧ n < n') : (ofMarch y n).Before (ofMarch y' n') := by
  simp only [Before, ofMarch, daysBefore]
  split <;> split <;> simp only <;> omega

/-- Later days are later dates. -/
theorem ofDays_before {a b : Int} (h : a < b) : (ofDays a).Before (ofDays b) := by
  rw [ofDays_eq, ofDays_eq]
  have ha : ((a + epochShift) % 146097).toNat < 146097 := by omega
  have hb : ((b + epochShift) % 146097).toNat < 146097 := by omega
  have hyearsA := yearsOf_lt ha
  have hyearsB := yearsOf_lt hb
  refine ofMarch_before (dayOf_le _) (dayOf_le _) ?_
  by_cases hcycle : (a + epochShift) / 146097 < (b + epochShift) / 146097
  · exact .inl (by omega)
  have hless : ((a + epochShift) % 146097).toNat < ((b + epochShift) % 146097).toNat := by omega
  rcases yearsOf_lt_or_dayOf_lt hless hb with hyears | ⟨hyears, hday⟩
  · exact .inl (by omega)
  · exact .inr ⟨by omega, hday⟩

theorem ofDays_le (days : Int) : (ofDays days).month ≤ 12 ∧ (ofDays days).day ≤ 31 := by
  rw [ofDays_eq]
  exact ofMarch_le _ (dayOf_le _)

end CalendarDate

namespace Timestamp

/-- A number in a field of a fixed width: its last digits, with leading zeros. -/
def field : (width : Nat) → (n : Nat) → List Char
  | 0, _ => []
  | width + 1, n => field width (n / 10) ++ [(n % 10).digitChar]

theorem field_zero (width : Nat) : field width 0 = List.replicate width '0' := by
  induction width with
  | zero => rfl
  | succ width ih => rw [field, Nat.zero_div, ih, List.replicate_succ']; rfl

/-- A number that is not too long is written in its field. -/
theorem toList_padded {width n : Nat} (wide : 0 < width) (short : n < Nat.pow 10 width) :
    (padded width n).toList = field width n := by
  induction width generalizing n with
  | zero => cases wide
  | succ width ih =>
    by_cases hsmall : n < 10
    · have hquotient : n / 10 = 0 := by omega
      rw [field, hquotient, field_zero, Nat.mod_eq_of_lt hsmall]
      simp [padded, Nat.toDigits_of_lt_base hsmall]
    · have hshort : n / 10 < Nat.pow 10 width := by
        have hpow : Nat.pow 10 (width + 1) = Nat.pow 10 width * 10 := rfl
        omega
      have hwide : 0 < width := by
        refine Nat.pos_of_ne_zero fun hzero => ?_
        subst hzero
        have hone : Nat.pow 10 0 = 1 := rfl
        omega
      rw [field, ← ih hwide hshort, padded, padded,
        Nat.toDigits_of_base_le (n := n) (by decide) (by omega)]
      simp [Nat.add_sub_add_right]

/-- Whether a text is not behind another one, sign by sign. -/
def Precedes : List Char → List Char → Prop
  | [], _ => True
  | _ :: _, [] => False
  | a :: x, b :: y => a.toNat < b.toNat ∨ a = b ∧ Precedes x y

theorem Precedes.refl (x : List Char) : Precedes x x := by
  induction x with
  | nil => trivial
  | cons a x ih => exact .inr ⟨rfl, ih⟩

theorem precedes_cons {x y : List Char} (c : Char) (h : Precedes x y) :
    Precedes (c :: x) (c :: y) := .inr ⟨rfl, h⟩

theorem le_of_precedes {s t : String} (h : Precedes s.toList t.toList) : s ≤ t := by
  rw [← String.not_lt, String.lt_iff]
  generalize s.toList = x at h ⊢
  generalize t.toList = y at h ⊢
  induction x generalizing y with
  | nil => exact List.not_lt_nil y
  | cons a x ih =>
    cases y with
    | nil => exact h.elim
    | cons b y =>
      rw [List.cons_lt_cons_iff]
      rintro (hlt | ⟨rfl, hlt⟩)
      · rcases h with hlt' | ⟨rfl, -⟩
        · exact absurd (Char.lt_def.1 hlt) (Nat.lt_asymm hlt')
        · exact Nat.lt_irrefl _ (Char.lt_def.1 hlt)
      · rcases h with hlt' | ⟨-, h⟩
        · exact Nat.lt_irrefl _ hlt'
        · exact ih y h hlt

/-- Fields of one width are in the order of their numbers, and then of what is behind them. -/
theorem precedes_field {width m n : Nat} (hm : m < Nat.pow 10 width) (hn : n < Nat.pow 10 width)
    {x y : List Char} (h : m < n ∨ m = n ∧ Precedes x y) :
    Precedes (field width m ++ x) (field width n ++ y) := by
  induction width generalizing m n x y with
  | zero =>
    have hone : Nat.pow 10 0 = 1 := rfl
    rcases h with h | ⟨-, h⟩
    · omega
    · exact h
  | succ width ih =>
    have hpow : Nat.pow 10 (width + 1) = Nat.pow 10 width * 10 := rfl
    have hdigit : ∀ k, (k % 10).digitChar.toNat = 48 + k % 10 :=
      fun k => Nat.toNat_digitChar_of_lt_ten (Nat.mod_lt k (by decide))
    rw [field, field, List.append_assoc, List.append_assoc]
    refine ih (by omega) (by omega) ?_
    rcases h with h | ⟨rfl, h⟩
    · rcases Nat.lt_or_ge (m / 10) (n / 10) with hlt | hge
      · exact .inl hlt
      · refine .inr ⟨by omega, .inl ?_⟩
        rw [hdigit, hdigit]
        omega
    · exact .inr ⟨rfl, precedes_cons _ h⟩

/-- A field is one of three digits behind one of those before them. -/
theorem field_add_three (width n : Nat) :
    field (width + 3) n = field width (n / 1000) ++ field 3 (n % 1000) := by
  have hquotient : n / 10 / 10 / 10 = n / 1000 := by omega
  have hhundreds : n % 1000 / 10 / 10 % 10 = n / 10 / 10 % 10 := by omega
  have htens : n % 1000 / 10 % 10 = n / 10 % 10 := by omega
  have hones : n % 1000 % 10 = n % 10 := by omega
  simp only [field, List.append_assoc, List.nil_append, List.cons_append, hquotient, hhundreds, htens,
    hones]

/-- The end of a text in universal time. -/
def utc : List Char := ['+', '0', '0', ':', '0', '0']

/-- The digits of a fraction in groups of three, up to the last group that is not zero. -/
def fractionField (f : Nat) : List Char :=
  if f = 0 then utc
  else '.' :: (field 3 (f / 1000000) ++
    if f % 1000000 = 0 then utc
    else field 3 (f / 1000 % 1000) ++ if f % 1000 = 0 then utc else field 3 (f % 1000) ++ utc)

theorem toList_fractionText {f : Nat} (short : f < Instant.second) :
    (fractionText f).toList ++ utc = fractionField f := by
  have hsecond : Instant.second = 1000000000 := rfl
  have hthree : Nat.pow 10 3 = 1000 := rfl
  have hsix : Nat.pow 10 6 = 1000000 := rfl
  have hnine : Nat.pow 10 9 = 1000000000 := rfl
  unfold fractionText fractionField
  by_cases hzero : f = 0
  · simp [hzero]
  rw [if_neg hzero, if_neg hzero]
  by_cases hmillis : f % 1000000 = 0
  · rw [if_pos hmillis, if_pos hmillis, String.toList_append, toList_padded (by decide) (by omega)]
    rfl
  rw [if_neg hmillis, if_neg hmillis]
  by_cases hmicros : f % 1000 = 0
  · have hfirst : f / 1000 / 1000 = f / 1000000 := by omega
    rw [if_pos hmicros, if_pos hmicros, String.toList_append, toList_padded (by decide) (by omega),
      field_add_three 3, hfirst, List.append_assoc, List.append_assoc]
    rfl
  · have hfirst : f / 1000 / 1000 = f / 1000000 := by omega
    rw [if_neg hmicros, if_neg hmicros, String.toList_append, toList_padded (by decide) (by omega),
      field_add_three 6, field_add_three 3, hfirst, List.append_assoc, List.append_assoc,
      List.append_assoc]
    rfl

/-- A text that ends comes before one with more digits. -/
theorem utc_precedes_field (width n : Nat) (y : List Char) :
    Precedes utc (field (width + 1) n ++ y) := by
  have hdigit : ∀ k, 48 ≤ (k % 10).digitChar.toNat := fun k => by
    rw [Nat.toNat_digitChar_of_lt_ten (Nat.mod_lt k (by decide))]
    omega
  induction width generalizing n y with
  | zero => exact .inl (Nat.lt_of_lt_of_le (by decide) (hdigit n))
  | succ width ih =>
    rw [field, List.append_assoc]
    exact ih (n / 10) _

theorem precedes_fractionField {m n : Nat} (h : m ≤ n) (hn : n < Instant.second) :
    Precedes (fractionField m) (fractionField n) := by
  have hsecond : Instant.second = 1000000000 := rfl
  have hthree : Nat.pow 10 3 = 1000 := rfl
  unfold fractionField
  by_cases hzero : m = 0
  · rw [if_pos hzero]
    split
    · exact .refl utc
    · exact .inl (by decide)
  have hzero' : ¬n = 0 := by omega
  rw [if_neg hzero, if_neg hzero']
  refine precedes_cons _ (precedes_field (by omega) (by omega) ?_)
  rcases Nat.lt_or_ge (m / 1000000) (n / 1000000) with hlt | hge
  · exact .inl hlt
  refine .inr ⟨by omega, ?_⟩
  by_cases hmillis : m % 1000000 = 0
  · rw [if_pos hmillis]
    split
    · exact .refl utc
    · exact utc_precedes_field 2 _ _
  have hmillis' : ¬n % 1000000 = 0 := by omega
  rw [if_neg hmillis, if_neg hmillis']
  refine precedes_field (by omega) (by omega) ?_
  rcases Nat.lt_or_ge (m / 1000 % 1000) (n / 1000 % 1000) with hlt | hge'
  · exact .inl hlt
  refine .inr ⟨by omega, ?_⟩
  by_cases hmicros : m % 1000 = 0
  · rw [if_pos hmicros]
    split
    · exact .refl utc
    · exact utc_precedes_field 2 _ _
  have hmicros' : ¬n % 1000 = 0 := by omega
  rw [if_neg hmicros, if_neg hmicros']
  refine precedes_field (by omega) (by omega) ?_
  rcases Nat.lt_or_ge (m % 1000) (n % 1000) with hlt | hge''
  · exact .inl hlt
  · exact .inr ⟨by omega, .refl utc⟩

end Timestamp

namespace Instant

/-- Whether the year of an instant in universal time is written with four digits and no sign. -/
def PlainYear (t : Instant) : Prop :=
  0 ≤ (CalendarDate.ofDays (t.seconds / 86400)).year ∧
    (CalendarDate.ofDays (t.seconds / 86400)).year ≤ 9999

/-- An instant that is not later has an earlier date, or the same date and an earlier time of day, where
a leap second counts as the second after it, or differs in the fraction only. -/
theorem date_before_or_time_le {a b : Instant} (h : a.le b = true) :
    a.seconds / 86400 < b.seconds / 86400 ∨ a.seconds / 86400 = b.seconds / 86400 ∧
      ((a.seconds % 86400).toNat / 3600 < (b.seconds % 86400).toNat / 3600 ∨
        (a.seconds % 86400).toNat / 3600 = (b.seconds % 86400).toNat / 3600 ∧
      ((a.seconds % 86400).toNat / 60 % 60 < (b.seconds % 86400).toNat / 60 % 60 ∨
        (a.seconds % 86400).toNat / 60 % 60 = (b.seconds % 86400).toNat / 60 % 60 ∧
      ((a.seconds % 86400).toNat % 60 + a.nanos / second <
          (b.seconds % 86400).toNat % 60 + b.nanos / second ∨
        (a.seconds % 86400).toNat % 60 + a.nanos / second =
          (b.seconds % 86400).toNat % 60 + b.nanos / second ∧
        a.nanos % second ≤ b.nanos % second))) := by
  obtain ⟨-, -, hnanosA, hleapA⟩ := a.valid
  obtain ⟨-, -, hnanosB, -⟩ := b.valid
  simp only [le, Bool.or_eq_true, Bool.and_eq_true, decide_eq_true_eq, beq_iff_eq] at h
  unfold second at *
  omega

end Instant

namespace Timestamp

/-- An instant with a plain year, each part of which fits its field. -/
structure Fits (t : Instant) : Prop where
  plain : t.PlainYear
  year : (CalendarDate.ofDays (t.seconds / 86400)).year.natAbs < Nat.pow 10 4
  month : (CalendarDate.ofDays (t.seconds / 86400)).month < Nat.pow 10 2
  day : (CalendarDate.ofDays (t.seconds / 86400)).day < Nat.pow 10 2
  hour : (t.seconds % 86400).toNat / 3600 < Nat.pow 10 2
  minute : (t.seconds % 86400).toNat / 60 % 60 < Nat.pow 10 2
  second : (t.seconds % 86400).toNat % 60 + t.nanos / Instant.second < Nat.pow 10 2

theorem fits_of_plainYear {t : Instant} (plain : t.PlainYear) : Fits t := by
  obtain ⟨-, -, hnanos, -⟩ := t.valid
  obtain ⟨hmonth, hday⟩ := CalendarDate.ofDays_le (t.seconds / 86400)
  obtain ⟨hlow, hhigh⟩ := plain
  have hseconds : (t.seconds % 86400).toNat < 86400 := by omega
  have hleap : t.nanos / Instant.second < 2 := Nat.div_lt_of_lt_mul (Nat.mul_comm 2 _ ▸ hnanos)
  have htwo : Nat.pow 10 2 = 100 := rfl
  have hfour : Nat.pow 10 4 = 10000 := rfl
  refine ⟨⟨hlow, hhigh⟩, ?_, ?_, ?_, ?_, ?_, ?_⟩ <;> omega

theorem yearText_of_plain {year : Int} (plain : 0 ≤ year ∧ year ≤ 9999) :
    yearText year = padded 4 year.natAbs := if_pos plain

theorem toList_render {t : Instant} (fits : Fits t) : (render "+00:00" t).toList =
    field 4 (CalendarDate.ofDays (t.seconds / 86400)).year.natAbs ++
      '-' :: (field 2 (CalendarDate.ofDays (t.seconds / 86400)).month ++
      '-' :: (field 2 (CalendarDate.ofDays (t.seconds / 86400)).day ++
      'T' :: (field 2 ((t.seconds % 86400).toNat / 3600) ++
      ':' :: (field 2 ((t.seconds % 86400).toNat / 60 % 60) ++
      ':' :: (field 2 ((t.seconds % 86400).toNat % 60 + t.nanos / Instant.second) ++
      fractionField (t.nanos % Instant.second)))))) := by
  rw [← toList_fractionText (Nat.mod_lt _ (by decide)), ← toList_padded (by decide) fits.year,
    ← toList_padded (by decide) fits.month, ← toList_padded (by decide) fits.day,
    ← toList_padded (by decide) fits.hour, ← toList_padded (by decide) fits.minute,
    ← toList_padded (by decide) fits.second]
  simp only [render, String.toList_append, yearText_of_plain fits.plain]
  simp [utc]

/-- A field, a sign, and what is behind them. -/
theorem precedes_separated {width m n : Nat} (hm : m < Nat.pow 10 width) (hn : n < Nat.pow 10 width)
    (separator : Char) {x y : List Char} (h : m < n ∨ m = n ∧ Precedes x y) :
    Precedes (field width m ++ separator :: x) (field width n ++ separator :: y) :=
  precedes_field hm hn (h.imp_right fun ⟨hsame, hrest⟩ => ⟨hsame, precedes_cons _ hrest⟩)

/-- Timestamps with plain years are in the order of their instants. -/
theorem render_le {a b : Instant} (ha : a.PlainYear) (hb : b.PlainYear) (h : a.le b = true) :
    render "+00:00" a ≤ render "+00:00" b := by
  have hfitsA := fits_of_plainYear ha
  have hfitsB := fits_of_plainYear hb
  refine le_of_precedes ?_
  rw [toList_render hfitsA, toList_render hfitsB]
  rcases Instant.date_before_or_time_le h with hdays | ⟨hdays, htime⟩
  · -- The dates decide, whatever the times of day are.
    refine precedes_separated hfitsA.year hfitsB.year '-' ?_
    rcases CalendarDate.ofDays_before hdays with hyear | ⟨hyear, hdate⟩
    · exact .inl (Int.natAbs_lt_natAbs_of_nonneg_of_lt hfitsA.plain.1 hyear)
    refine .inr ⟨congrArg Int.natAbs hyear, ?_⟩
    refine precedes_separated hfitsA.month hfitsB.month '-' ?_
    rcases hdate with hmonth | ⟨hmonth, hday⟩
    · exact .inl hmonth
    exact .inr ⟨hmonth, precedes_separated hfitsA.day hfitsB.day 'T' (.inl hday)⟩
  · rw [hdays]
    refine precedes_separated hfitsB.year hfitsB.year '-' (.inr ⟨rfl, ?_⟩)
    refine precedes_separated hfitsB.month hfitsB.month '-' (.inr ⟨rfl, ?_⟩)
    refine precedes_separated hfitsB.day hfitsB.day 'T' (.inr ⟨rfl, ?_⟩)
    refine precedes_separated hfitsA.hour hfitsB.hour ':' (htime.imp_right ?_)
    refine fun ⟨hhour, htime⟩ => ⟨hhour, ?_⟩
    refine precedes_separated hfitsA.minute hfitsB.minute ':' (htime.imp_right ?_)
    refine fun ⟨hminute, htime⟩ => ⟨hminute, ?_⟩
    refine precedes_field hfitsA.second hfitsB.second (htime.imp_right ?_)
    exact fun ⟨hsecond, hnanos⟩ => ⟨hsecond, precedes_fractionField hnanos (Nat.mod_lt _ (by decide))⟩

end Timestamp

end Dunning
