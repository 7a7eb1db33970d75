import Dunning.Proofs.Time.Order

/-!
# Timestamps that are read back

Every instant is read back from its text: days are counted back from the date that they
give, and each part of the text is cut off by the sign behind it. This holds of leap
seconds, and of years with a sign and any number of digits.
-/
namespace Dunning

namespace CalendarDate

/-- The days before a date that is counted from March. -/
theorem toDays_ofMarch (year : Int) {inYear : Nat} (h : inYear ≤ 365) :
    (ofMarch year inYear).toDays =
      year * 365 + year / 4 - year / 100 + year / 400 + inYear - epochShift := by
  simp only [ofMarch]
  generalize hmonth : (5 * inYear + 2) / 153 = month
  have hbefore : daysBefore month ≤ inYear := by
    unfold daysBefore
    omega
  by_cases hearly : month < 10
  · have hshift : ¬month + 3 ≤ 2 := by omega
    simp only [if_pos hearly, toDays, if_neg hshift, Nat.add_sub_cancel]
    omega
  · have hshift : month - 9 ≤ 2 := by omega
    have hback : month - 9 + 9 = month := by omega
    simp only [if_neg hearly, toDays, if_pos hshift, hback]
    omega

theorem units_mul_le (days unit most : Nat) : units days unit most * unit ≤ days :=
  Nat.le_trans (Nat.mul_le_mul_right unit (Nat.min_le_left _ _)) (Nat.div_mul_le_self days unit)

/-- The days of a cycle are cut into whole centuries, groups of four years, years, and days. -/
theorem exists_parts {n : Nat} (h : n < 146097) : ∃ century group single : Nat,
    century ≤ 3 ∧ group ≤ 24 ∧ single ≤ 3 ∧ yearsOf n = century * 100 + group * 4 + single ∧
      n = century * 36524 + group * 1461 + single * 365 + dayOf n ∧ dayOf n ≤ 365 ∧
      (dayOf n = 365 → single = 3 ∧ (group = 24 → century = 3)) := by
  have hcentury : units n 36524 3 ≤ 3 := Nat.min_le_right _ _
  have hmost : units n 36524 3 < 3 → inCentury n < 36524 := by
    unfold inCentury units
    omega
  have hin : inCentury n ≤ 36524 := (inCentury_le h).2
  have hcenturies := units_mul_le n 36524 3
  have hrest : n = units n 36524 3 * 36524 + inCentury n := by
    unfold inCentury
    omega
  have hgroup : inCentury n % 1461 < 1461 := Nat.mod_lt _ (by decide)
  have hsingle : units (inCentury n % 1461) 365 3 ≤ 3 := Nat.min_le_right _ _
  have hlast : inYear (inCentury n % 1461) = 365 → units (inCentury n % 1461) 365 3 = 3 := by
    generalize inCentury n % 1461 = inGroup at hgroup
    unfold inYear units
    omega
  have hyears := units_mul_le (inCentury n % 1461) 365 3
  have hdays : inCentury n % 1461 = units (inCentury n % 1461) 365 3 * 365 + dayOf n := by
    unfold dayOf inYear
    omega
  have hlastDay : dayOf n = 365 → units (inCentury n % 1461) 365 3 = 3 := hlast
  have hyearsOf : yearsOf n = units n 36524 3 * 100 + inCentury n / 1461 * 4 +
      units (inCentury n % 1461) 365 3 := by rw [yearsOf]
  have hday := dayOf_le n
  generalize units n 36524 3 = century at *
  generalize units (inCentury n % 1461) 365 3 = single at *
  generalize inCentury n = rest at *
  generalize dayOf n = day at *
  have hsum : n = century * 36524 + rest / 1461 * 1461 + single * 365 + day := by
    rw [Nat.add_assoc, ← hdays, Nat.add_assoc, Nat.div_add_mod', hrest]
  refine ⟨century, rest / 1461, single, hcentury, by omega, hsingle, hyearsOf, hsum, hday, ?_⟩
  intro hfull
  have hthree := hlastDay hfull
  exact ⟨hthree, fun hgroups => by omega⟩

/-- The days of a date are those that give it. -/
theorem toDays_ofDays (days : Int) : (ofDays days).toDays = days := by
  rw [ofDays_eq, toDays_ofMarch _ (dayOf_le _)]
  have hin : ((days + epochShift) % 146097).toNat < 146097 := by omega
  obtain ⟨century, group, single, hcentury, hgroup, hsingle, hyears, hdays, -, -⟩ := exists_parts hin
  have hcycle : days + epochShift = (days + epochShift) / 146097 * 146097 +
      ((days + epochShift) % 146097).toNat := by omega
  generalize ((days + epochShift) % 146097).toNat = n at hyears hdays hcycle ⊢
  generalize (days + epochShift) / 146097 = cycle at hcycle ⊢
  have hfours : (cycle * 400 + (yearsOf n : Nat)) / 4 = cycle * 100 + century * 25 + group := by omega
  have hcenturies : (cycle * 400 + (yearsOf n : Nat)) / 100 = cycle * 4 + century := by omega
  have hcycles : (cycle * 400 + (yearsOf n : Nat)) / 400 = cycle := by omega
  omega

/-- The last day of a year that ends in February is in a leap year. -/
theorem isLeap_of_dayOf {n : Nat} (h : n < 146097) (hday : dayOf n = 365) (cycle : Int) :
    isLeap (cycle * 400 + (yearsOf n : Nat) + 1) = true := by
  obtain ⟨century, group, single, hcentury, hgroup, hsingle, hyears, -, -, hlast⟩ := exists_parts h
  obtain ⟨hthree, hlastGroup⟩ := hlast hday
  simp only [isLeap, Bool.and_eq_true, Bool.or_eq_true, beq_iff_eq, bne_iff_ne]
  refine ⟨by omega, ?_⟩
  by_cases hgroups : group = 24
  · have := hlastGroup hgroups
    exact .inr (by omega)
  · exact .inl (by omega)

/-- A date that is counted from March exists, if its last day is in a leap year. -/
theorem exists_ofMarch {year : Int} {inYear : Nat} (h : inYear ≤ 365)
    (hleap : inYear = 365 → isLeap (year + 1) = true) : (ofMarch year inYear).Exists := by
  by_cases hearly : (5 * inYear + 2) / 153 < 10
  · have hdate : ofMarch year inYear = ⟨year, (5 * inYear + 2) / 153 + 3,
        inYear - daysBefore ((5 * inYear + 2) / 153) + 1⟩ := if_pos hearly
    have hfebruary : ¬(5 * inYear + 2) / 153 + 3 = 2 := by omega
    simp only [hdate, Exists, monthLength, daysBefore, if_neg hfebruary]
    refine ⟨by omega, by omega, by omega, ?_⟩
    split <;> omega
  · have hdate : ofMarch year inYear = ⟨year + 1, (5 * inYear + 2) / 153 - 9,
        inYear - daysBefore ((5 * inYear + 2) / 153) + 1⟩ := if_neg hearly
    have hlong : ¬((5 * inYear + 2) / 153 - 9 = 4 ∨ (5 * inYear + 2) / 153 - 9 = 6 ∨
      (5 * inYear + 2) / 153 - 9 = 9 ∨ (5 * inYear + 2) / 153 - 9 = 11) := by omega
    simp only [hdate, Exists, monthLength, daysBefore, if_neg hlong]
    refine ⟨by omega, by omega, by omega, ?_⟩
    split
    · split
      · omega
      next hnot =>
        have hearlier : inYear ≠ 365 := fun hlast => hnot (hleap hlast)
        omega
    · omega

theorem exists_ofDays (days : Int) : (ofDays days).Exists := by
  rw [ofDays_eq]
  have hin : ((days + epochShift) % 146097).toNat < 146097 := by omega
  exact exists_ofMarch (dayOf_le _) fun hday => isLeap_of_dayOf hin hday _

end CalendarDate

namespace Timestamp

/-! ## Numbers -/

theorem numeral_eq (ds : List Char) : numeral ds = Nat.ofDigitChars 10 ds 0 := by
  rw [Nat.ofDigitChars_eq_foldl, numeral]
  simp only [Nat.mul_comm]

theorem numeral_padded (width n : Nat) : numeral (padded width n).toList = n := by
  simp [numeral_eq, padded, Nat.ofDigitChars_append, Nat.ofDigitChars_replicate_zero,
    Nat.ofDigitChars_ten_toDigits]

theorem isDigit_of_mem_padded {width n : Nat} {c : Char} (h : c ∈ (padded width n).toList) :
    c.isDigit = true := by
  simp only [padded, String.toList_ofList, List.mem_append] at h
  rcases h with h | h
  · rw [List.eq_of_mem_replicate h]
    rfl
  · exact Nat.isDigit_of_mem_toDigits (by decide) (by decide) h

/-- What stands behind a number is no digit. -/
def Ends (rest : List Char) : Prop := ∀ c ∈ rest.head?, c.isDigit = false

theorem ends_cons {c : Char} (h : c.isDigit = false) (rest : List Char) : Ends (c :: rest) := by
  intro d hd
  obtain rfl : c = d := by simpa using hd
  exact h

theorem ends_take {rest : List Char} (h : Ends rest) (n : Nat) : Ends (rest.take n) := by
  intro c hc
  cases rest with
  | nil => simp at hc
  | cons d rest =>
    cases n with
    | zero => simp at hc
    | succ n => exact h c (by simpa using hc)

theorem takeWhile_isDigit {ds : List Char} (h : ∀ c ∈ ds, c.isDigit = true) {rest : List Char}
    (hrest : Ends rest) : (ds ++ rest).takeWhile Char.isDigit = ds := by
  rw [List.takeWhile_append_of_pos h]
  cases rest with
  | nil => simp
  | cons c rest => simp [hrest c rfl]

/-- Digits are cut off where they end. -/
theorem digits_append {width : Nat} {ds rest : List Char} (h : ∀ c ∈ ds, c.isDigit = true)
    (hne : ds ≠ []) (hrest : Ends rest) (hlength : ds.length ≤ width) :
    digits width (ds ++ rest) = .ok (ds, rest) := by
  have hfound : ((ds ++ rest).take width).takeWhile Char.isDigit = ds := by
    rw [List.take_append, List.take_of_length_le hlength]
    exact takeWhile_isDigit h (ends_take hrest _)
  obtain ⟨c, cs, rfl⟩ := List.exists_cons_of_ne_nil hne
  unfold digits
  simp only [hfound]
  simp

/-- No digit is blank. -/
theorem isBlank_of_isDigit {c : Char} (h : c.isDigit = true) : Text.isBlank c = false := by
  have hrange : 48 ≤ c.toNat ∧ c.toNat ≤ 57 := by
    simpa [Char.isDigit, UInt32.le_iff_toNat_le] using h
  simp [Text.isBlank, Text.blankRanges]
  omega

theorem dropBlank_cons {c : Char} (h : Text.isBlank c = false) (rest : List Char) :
    Text.dropBlank (c :: rest) = c :: rest := by
  simp [Text.dropBlank, h]

theorem length_field (width n : Nat) : (field width n).length = width := by
  induction width generalizing n with
  | zero => rfl
  | succ width ih => rw [field, List.length_append, ih]; rfl

theorem length_padded {width n : Nat} (wide : 0 < width) (short : n < Nat.pow 10 width) :
    (padded width n).toList.length = width := by
  rw [toList_padded wide short, length_field]

theorem padded_eq_cons (width n : Nat) :
    ∃ c cs, (padded width n).toList = c :: cs ∧ c.isDigit = true := by
  cases h : (padded width n).toList with
  | nil =>
    simp [padded] at h
  | cons c cs => exact ⟨c, cs, rfl, isDigit_of_mem_padded (h ▸ List.mem_cons_self)⟩

theorem dropBlank_padded (width n : Nat) (rest : List Char) :
    Text.dropBlank ((padded width n).toList ++ rest) = (padded width n).toList ++ rest := by
  obtain ⟨c, cs, htext, hc⟩ := padded_eq_cons width n
  rw [htext, List.cons_append, dropBlank_cons (isBlank_of_isDigit hc)]

theorem digits_padded {width n most : Nat} {rest : List Char} (hrest : Ends rest)
    (hlength : (padded width n).toList.length ≤ most) :
    digits most ((padded width n).toList ++ rest) = .ok ((padded width n).toList, rest) := by
  obtain ⟨c, cs, htext, -⟩ := padded_eq_cons width n
  refine digits_append (fun d hd => isDigit_of_mem_padded hd) ?_ hrest hlength
  rw [htext]
  exact List.cons_ne_nil c cs

/-! ## Fields -/

/-- A field of two digits is read as its number. -/
theorem bounded_padded {low high n : Nat} {rest : List Char} (hrest : Ends rest) (hlow : low ≤ n)
    (hhigh : n ≤ high) (hshort : n < 100) :
    bounded low high ((padded 2 n).toList ++ rest) = .ok (n, rest) := by
  have hlength : (padded 2 n).toList.length ≤ 2 := (length_padded (by decide) hshort).le
  simp [bounded, number, dropBlank_padded, digits_padded hrest hlength, numeral_padded, hlow, hhigh,
    bind, Except.bind, pure, Except.pure]

theorem separator_cons {c : Char} (h : Text.isBlank c = false) (rest : List Char) :
    separator c (c :: rest) = .ok ((), rest) := by
  simp [separator, dropBlank_cons h]

/-- A year is read as itself, with or without a sign. -/
theorem year_yearText {y : Int} (hlow : -2147483648 ≤ y) (hhigh : y ≤ 2147483647) {rest : List Char}
    (hrest : Ends rest) : year ((yearText y).toList ++ rest) = .ok (y, rest) := by
  have hdigits : ∀ most, (padded 4 y.natAbs).toList.length ≤ most →
      digits most ((padded 4 y.natAbs).toList ++ rest) = .ok ((padded 4 y.natAbs).toList, rest) :=
    fun _ h => digits_padded hrest h
  have hall := hdigits ((padded 4 y.natAbs).toList.length + rest.length) (Nat.le_add_right _ _)
  unfold yearText
  split
  next hplain =>
    have hlength : (padded 4 y.natAbs).toList.length = 4 :=
      length_padded (by decide) (show y.natAbs < 10000 by omega)
    have hshort := hdigits 4 hlength.le
    have hy : ((y.natAbs : Nat) : Int) = y := by omega
    have hnumeral := numeral_padded 4 y.natAbs
    obtain ⟨c, cs, htext, hc⟩ := padded_eq_cons 4 y.natAbs
    have hminus : c ≠ '-' := by
      rintro rfl
      cases hc
    have hplus : c ≠ '+' := by
      rintro rfl
      cases hc
    rw [htext] at hnumeral hshort ⊢
    simp only [List.cons_append] at hshort ⊢
    unfold year
    simp only [dropBlank_cons (isBlank_of_isDigit hc)]
    split
    next heq => exact absurd (List.cons.inj heq).1 hminus
    next heq => exact absurd (List.cons.inj heq).1 hplus
    next => simp [hshort, hnumeral, hy, hlow, hhigh, bind, Except.bind]
  next hsigned =>
    have hnumeral := numeral_padded 4 y.natAbs
    by_cases hneg : y < 0
    · have hy : -|y| = y := by rw [abs_of_neg hneg, neg_neg]
      have htext : (("-" ++ padded 4 y.natAbs).toList ++ rest) =
          '-' :: ((padded 4 y.natAbs).toList ++ rest) := by simp
      rw [if_pos hneg, htext, year, dropBlank_cons rfl]
      simp [hall, hnumeral, hy, hlow, hhigh, bind, Except.bind]
    · have hy : ((y.natAbs : Nat) : Int) = y := by omega
      have htext : (("+" ++ padded 4 y.natAbs).toList ++ rest) =
          '+' :: ((padded 4 y.natAbs).toList ++ rest) := by simp
      rw [if_neg hneg, htext, year, dropBlank_cons rfl]
      simp [hall, hnumeral, hy, hlow, hhigh, bind, Except.bind]

/-- A fraction is read as its nanoseconds. -/
theorem fraction_fractionText {f : Nat} (h : f < Instant.second) :
    fraction ((fractionText f).toList ++ ['Z']) = .ok (f, ['Z']) := by
  have hsecond : Instant.second = 1000000000 := rfl
  have hends : Ends ['Z'] := ends_cons rfl []
  have hdigits : ∀ width n, 0 < width → width ≤ 9 → n < Nat.pow 10 width →
      fraction (("." ++ padded width n).toList ++ ['Z']) =
        .ok (n * Nat.pow 10 (9 - width), ['Z']) := by
    intro width n hpos hwide hshort
    have hlength := length_padded hpos hshort
    simp [fraction, digits_padded hends (hlength.trans_le hwide), numeral_padded, hlength, bind,
      Except.bind, pure, Except.pure]
  have hthree : Nat.pow 10 3 = 1000 := rfl
  have hsix : Nat.pow 10 6 = 1000000 := rfl
  have hnine : Nat.pow 10 9 = 1000000000 := rfl
  unfold fractionText
  split_ifs with hzero hmillis hmicros
  · subst hzero
    rfl
  · have hvalue : f / 1000000 * Nat.pow 10 (9 - 3) = f := by
      rw [show 9 - 3 = 6 from rfl, hsix]
      omega
    rw [hdigits 3 _ (by decide) (by decide) (by omega), hvalue]
  · have hvalue : f / 1000 * Nat.pow 10 (9 - 6) = f := by
      rw [show 9 - 6 = 3 from rfl, hthree]
      omega
    rw [hdigits 6 _ (by decide) (by decide) (by omega), hvalue]
  · rw [hdigits 9 _ (by decide) (by decide) (by omega)]
    exact congrArg (fun n => Except.ok (n, ['Z'])) (Nat.mul_one f)

/-- The date and time of day of an instant resolve to it, with a leap second as the second 60. -/
theorem resolve_self (t : Instant) :
    resolve (CalendarDate.ofDays (t.seconds / 86400)) (t.seconds % 86400).toNat t.nanos 0 = .ok t := by
  obtain ⟨hlow, hhigh, -, -⟩ := t.valid
  have hseconds : (CalendarDate.ofDays (t.seconds / 86400)).toDays * 86400 +
      ((t.seconds % 86400).toNat : Nat) = t.seconds := by
    rw [CalendarDate.toDays_ofDays]
    omega
  have hexists := CalendarDate.exists_ofDays (t.seconds / 86400)
  have hrange : ¬(¬(CalendarDate.ofDays (t.seconds / 86400)).Exists ∨
      t.seconds < Instant.firstSecond ∨ Instant.lastSecond < t.seconds) := by
    rintro (hmissing | hearly | hlate)
    · exact hmissing hexists
    · exact Int.not_lt.2 hlow hearly
    · exact Int.not_lt.2 hhigh hlate
  simp only [resolve, hseconds]
  rw [if_neg hrange, if_neg (by decide)]
  simp [Instant.ofSeconds?, t.valid]

/-- The year of an instant is far from the ends of its range. -/
theorem year_ofDays_bounds (t : Instant) :
    -2147483648 ≤ (CalendarDate.ofDays (t.seconds / 86400)).year ∧
      (CalendarDate.ofDays (t.seconds / 86400)).year ≤ 2147483647 := by
  obtain ⟨hlow, hhigh, -, -⟩ := t.valid
  have hfirst : Instant.firstSecond = -8334601228800 := by decide
  have hlast : Instant.lastSecond = 8210266876799 := by decide
  rw [CalendarDate.ofDays_eq]
  have hshift : CalendarDate.epochShift = 719468 := rfl
  have hin : ((t.seconds / 86400 + CalendarDate.epochShift) % 146097).toNat < 146097 := by omega
  have hyears := CalendarDate.yearsOf_lt hin
  simp only [CalendarDate.ofMarch]
  split <;> simp only <;> omega

theorem toList_text (t : Instant) : t.text.toList =
    (yearText (CalendarDate.ofDays (t.seconds / 86400)).year).toList ++
      '-' :: ((padded 2 (CalendarDate.ofDays (t.seconds / 86400)).month).toList ++
      '-' :: ((padded 2 (CalendarDate.ofDays (t.seconds / 86400)).day).toList ++
      'T' :: ((padded 2 ((t.seconds % 86400).toNat / 3600)).toList ++
      ':' :: ((padded 2 ((t.seconds % 86400).toNat / 60 % 60)).toList ++
      ':' :: ((padded 2 ((t.seconds % 86400).toNat % 60 + t.nanos / Instant.second)).toList ++
      ((fractionText (t.nanos % Instant.second)).toList ++ ['Z'])))))) := by
  simp [Instant.text, render]

/-- Every instant is read back from its text. -/
theorem read_text (t : Instant) : read t.text.toList = .ok t := by
  obtain ⟨-, -, hnanos, hleap⟩ := t.valid
  have hsecond : Instant.second = 1000000000 := rfl
  have hseconds : (t.seconds % 86400).toNat < 86400 := by omega
  obtain ⟨hlow, hhigh⟩ := year_ofDays_bounds t
  obtain ⟨hmonth, hmonth', hday, -⟩ := CalendarDate.exists_ofDays (t.seconds / 86400)
  obtain ⟨-, hday'⟩ := CalendarDate.ofDays_le (t.seconds / 86400)
  have hresolve := resolve_self t
  have hfraction : t.nanos % Instant.second < Instant.second := Nat.mod_lt _ (by decide)
  have hnodigit : Ends ((fractionText (t.nanos % Instant.second)).toList ++ ['Z']) := by
    unfold fractionText
    split_ifs <;> simp [Ends]
  have hsec : (t.seconds % 86400).toNat % 60 + t.nanos / Instant.second ≤ 60 := by
    simp only [hsecond] at hnanos hleap ⊢
    omega
  -- A second 60 stands for the second 59 with a thousand million nanoseconds more.
  have hofDay : (t.seconds % 86400).toNat / 3600 * 3600 + (t.seconds % 86400).toNat / 60 % 60 * 60 +
      min ((t.seconds % 86400).toNat % 60 + t.nanos / Instant.second) 59 =
        (t.seconds % 86400).toNat := by
    simp only [hsecond] at hnanos hleap ⊢
    omega
  have hnanosSum : t.nanos % Instant.second +
      (if (t.seconds % 86400).toNat % 60 + t.nanos / Instant.second = 60 then Instant.second else 0) =
        t.nanos := by
    simp only [hsecond] at hnanos hleap ⊢
    split <;> omega
  rw [toList_text, read, year_yearText hlow hhigh (ends_cons rfl _)]
  simp only [bind, Except.bind, separator_cons (c := '-') rfl]
  rw [bounded_padded (ends_cons rfl _) hmonth hmonth' (by omega)]
  simp only [separator_cons (c := '-') rfl]
  rw [bounded_padded (ends_cons rfl _) hday hday' (by omega)]
  simp only [true_or, if_true]
  rw [bounded_padded (ends_cons rfl _) (Nat.zero_le _) (by omega) (by omega)]
  simp only [separator_cons (c := ':') rfl]
  rw [bounded_padded (ends_cons rfl _) (Nat.zero_le _) (by omega) (by omega)]
  simp only [separator_cons (c := ':') rfl]
  rw [bounded_padded hnodigit (Nat.zero_le _) hsec (by omega)]
  simp only [fraction_fractionText hfraction]
  have hoffset : offset (Text.dropBlank ['Z']) = .ok (0, []) := rfl
  rw [hoffset]
  simp only [hofDay, hnanosSum, hresolve]
  rfl

end Timestamp

end Dunning
