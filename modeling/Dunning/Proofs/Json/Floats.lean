import Dunning.Proofs.Json.Numeral
import Dunning.Proofs.Number.QuickReading

/-!
# Floats that are read

The text of every float is read as some float, though not always as the same one: its digits fit
into a significand, and its exponent leads to a number in range.
-/
namespace Dunning

open Binary64 (signed)

namespace Json

/-! ## The parts of a number -/

theorem NumberDraft.read?_cons {draft next : NumberDraft} {c : Char} (h : draft.step c = .more next)
    (cs : List Char) : draft.read? (c :: cs) = next.read? cs := by
  rw [read?, h]

/-- The draft of a number with digits behind its point. -/
def pointDraft (negative : Bool) (whole fraction : List Char) : NumberDraft :=
  ⟨.fraction, negative, (digitsOf whole).reverse, (digitsOf fraction).reverse, false, []⟩

theorem read?_point (negative : Bool) (whole : List Char) {fraction : List Char}
    (hne : fraction ≠ []) (h : ∀ c ∈ fraction, c.isDigit = true) (rest : List Char) :
    (leadingDraft negative whole).read? ('.' :: fraction ++ rest) =
      (pointDraft negative whole fraction).read? rest := by
  obtain ⟨c, cs, rfl⟩ := List.exists_cons_of_ne_nil hne
  have hc := h c List.mem_cons_self
  have hpoint : (leadingDraft negative whole).step '.' =
      .more ⟨.point, negative, (digitsOf whole).reverse, [], false, []⟩ := by
    unfold leadingDraft
    split_ifs <;> rfl
  have hfirst : NumberDraft.step ⟨.point, negative, (digitsOf whole).reverse, [], false, []⟩ c =
      .more ⟨.fraction, negative, (digitsOf whole).reverse, [c.toNat - 48], false, []⟩ := by
    simp [NumberDraft.step, hc]
  have hplaces := NumberDraft.read?_digits
    (fun read => ⟨.fraction, negative, (digitsOf whole).reverse, read, false, []⟩)
    (fun read d hd => by simp [NumberDraft.step, hd])
    (fun d hd => h d (List.mem_cons_of_mem c hd)) [c.toNat - 48]
  rw [NumberDraft.read?_append, NumberDraft.read?_cons hpoint,
    NumberDraft.read?_cons hfirst, hplaces]
  simp [pointDraft, digitsOf]

/-- The draft of a number in front of its exponent mark, which may have a point or not. -/
def beforeMark (negative : Bool) (whole fraction : List Char) : NumberDraft :=
  if fraction = [] then leadingDraft negative whole else pointDraft negative whole fraction

/-- A number behind its point and its exponent, of either sign. -/
theorem read?_mark (negative : Bool) {whole : List Char} (fraction : List Char) (below : Bool)
    {power : List Char} (hne : power ≠ []) (h : ∀ c ∈ power, c.isDigit = true) :
    (beforeMark negative whole fraction).read? ('e' :: (if below then '-' else '+') :: power) =
      some ⟨.exponent, negative, (digitsOf whole).reverse, (digitsOf fraction).reverse, below,
        (digitsOf power).reverse⟩ := by
  obtain ⟨c, cs, rfl⟩ := List.exists_cons_of_ne_nil hne
  have hc := h c List.mem_cons_self
  have hmark : (beforeMark negative whole fraction).step 'e' = .more
      ⟨.mark, negative, (digitsOf whole).reverse, (digitsOf fraction).reverse, false, []⟩ := by
    unfold beforeMark leadingDraft pointDraft
    split_ifs with hfraction hzero
    · subst hfraction
      rfl
    · subst hfraction
      rfl
    · rfl
  have hsign : NumberDraft.step
      ⟨.mark, negative, (digitsOf whole).reverse, (digitsOf fraction).reverse, false, []⟩
      (if below then '-' else '+') = .more
        ⟨.markSign, negative, (digitsOf whole).reverse, (digitsOf fraction).reverse, below, []⟩ := by
    cases below <;> rfl
  have hfirst : NumberDraft.step
      ⟨.markSign, negative, (digitsOf whole).reverse, (digitsOf fraction).reverse, below, []⟩ c = .more
        ⟨.exponent, negative, (digitsOf whole).reverse, (digitsOf fraction).reverse, below,
          [c.toNat - 48]⟩ := by
    simp [NumberDraft.step, hc]
  have hpower := NumberDraft.read?_digits
    (fun read => ⟨.exponent, negative, (digitsOf whole).reverse, (digitsOf fraction).reverse, below, read⟩)
    (fun read d hd => by simp [NumberDraft.step, hd])
    (fun d hd => h d (List.mem_cons_of_mem c hd)) [c.toNat - 48]
  rw [NumberDraft.read?_cons hmark, NumberDraft.read?_cons hsign, NumberDraft.read?_cons hfirst, hpower]
  simp [digitsOf]

/-! ## The value of a float -/

theorem foldl_digitsOf_append (whole fraction : List Char) :
    (digitsOf whole ++ digitsOf fraction).foldl (fun n d => n * 10 + d) 0 =
      Nat.ofDigitChars 10 (whole ++ fraction) 0 := by
  rw [← foldl_digitsOf]
  simp [digitsOf]

/-- A literal whose digits fit into a significand is scaled by its exponent and its places. -/
theorem value_of_fits {l : NumberLiteral} (hfloat : l.fraction ≠ [] ∨ l.exponent ≠ none) {s : Nat}
    (hdigits : (l.whole ++ l.fraction).foldl (fun n d => n * 10 + d) 0 = s)
    (hs : s ≤ NumberLiteral.significandMax) : l.value =
      (NumberLiteral.scale l.negative s (l.exponent.getD 0 - l.fraction.length)).map .float := by
  rw [List.foldl_append] at hdigits
  have hwhole : l.whole.foldl (fun n d => n * 10 + d) 0 ≤ NumberLiteral.significandMax :=
    (le_foldl_digits l.fraction _).trans (hdigits ▸ hs)
  have hfraction := gather_eq (hdigits ▸ hs)
  have hnot : ¬(l.fraction.isEmpty = true ∧ l.exponent.isNone = true ∧
      l.whole.length - l.whole.length = 0) := by
    simp only [List.isEmpty_iff, Option.isNone_iff_eq_none]
    tauto
  simp only [NumberLiteral.value, gather_eq hwhole, if_neg hnot, hfraction, hdigits]
  congr 2
  omega

section

variable (negative : Bool) {whole fraction : List Char} {s : Nat} {x : Binary64}

/-- A number with digits behind its point is read as its digits, scaled by its places. -/
theorem numeral_point (hwhole : Leads whole) (hne : fraction ≠ [])
    (hfraction : ∀ c ∈ fraction, c.isDigit = true)
    (hdigits : Nat.ofDigitChars 10 (whole ++ fraction) 0 = s) (hs : s ≤ NumberLiteral.significandMax)
    (scaled : NumberLiteral.scale negative s (-fraction.length) = some x) :
    Numeral (signed negative (whole ++ '.' :: fraction)) (.float x) := by
  have hread : readNumber? (signed negative (whole ++ '.' :: fraction)) =
      some (pointDraft negative whole fraction) := by
    have hpoint := read?_point negative whole hne hfraction []
    rw [List.append_nil] at hpoint
    rw [readNumber?_signed negative hwhole, hpoint]
    rfl
  refine .ofRead hread rfl ?_
  have hliteral : (pointDraft negative whole fraction).literal =
      ⟨negative, digitsOf whole, digitsOf fraction, none⟩ := by
    simp [NumberDraft.literal, pointDraft]
  have hfloat : digitsOf fraction ≠ [] := by simpa [digitsOf] using hne
  have hsum := (foldl_digitsOf_append whole fraction).trans hdigits
  rw [hliteral, value_of_fits (.inl hfloat) hsum hs]
  simp [digitsOf, scaled]

/-- A number with an exponent is read as its digits, scaled by its exponent less its places. -/
theorem numeral_mark (hwhole : Leads whole) (hfraction : ∀ c ∈ fraction, c.isDigit = true)
    (below : Bool) {power : List Char} (hne : power ≠ []) (hpower : ∀ c ∈ power, c.isDigit = true)
    (hdigits : Nat.ofDigitChars 10 (whole ++ fraction) 0 = s) (hs : s ≤ NumberLiteral.significandMax)
    {e : Int} (he : (if below then -(Nat.ofDigitChars 10 power 0 : Int)
      else Nat.ofDigitChars 10 power 0) = e + fraction.length)
    (scaled : NumberLiteral.scale negative s e = some x) :
    Numeral (signed negative (whole ++ ((if fraction = [] then [] else '.' :: fraction) ++
      'e' :: (if below then '-' else '+') :: power))) (.float x) := by
  have hread : readNumber? (signed negative (whole ++ ((if fraction = [] then [] else '.' :: fraction) ++
      'e' :: (if below then '-' else '+') :: power))) =
        some ⟨.exponent, negative, (digitsOf whole).reverse, (digitsOf fraction).reverse, below,
          (digitsOf power).reverse⟩ := by
    have hbefore : ∀ rest, (leadingDraft negative whole).read?
        ((if fraction = [] then [] else '.' :: fraction) ++ rest) =
          (beforeMark negative whole fraction).read? rest := by
      intro rest
      unfold beforeMark
      split_ifs with hnone
      · rfl
      · exact read?_point negative whole hnone hfraction rest
    rw [readNumber?_signed negative hwhole, hbefore, read?_mark negative fraction below hne hpower]
  refine .ofRead hread rfl ?_
  have hsome : digitsOf power ≠ [] := by simpa [digitsOf] using hne
  have hliteral : (NumberDraft.literal ⟨.exponent, negative, (digitsOf whole).reverse,
      (digitsOf fraction).reverse, below, (digitsOf power).reverse⟩) =
        ⟨negative, digitsOf whole, digitsOf fraction, some (e + fraction.length)⟩ := by
    simp [NumberDraft.literal, hsome, foldl_digitsOf, he]
  have hsum := (foldl_digitsOf_append whole fraction).trans hdigits
  rw [hliteral, value_of_fits (.inr (by simp)) hsum hs]
  simp [digitsOf, scaled]

end

/-! ## The texts of floats -/

theorem leads_take_toDigits {n k : Nat} (hn : 0 < n) (hk : 0 < k) :
    Leads ((Nat.toDigits 10 n).take k) := by
  refine ⟨fun c hc => Decimal.isDigit_of_mem_toDigits (List.mem_of_mem_take hc), .inr ?_⟩
  obtain ⟨c, cs, heq, hc⟩ := toDigits_eq_cons hn
  obtain ⟨k, rfl⟩ := Nat.exists_eq_add_one_of_ne_zero hk.ne'
  exact ⟨c, cs.take k, by rw [heq, List.take_succ_cons], hc⟩

theorem leads_wholeDigits {d : Decimal} (hzero : d.digits = 0 → d.exponent = 0) :
    Leads d.wholeDigits := by
  rcases Nat.eq_zero_or_pos d.digits with hnone | hdigits
  · have hwhole : d.wholeDigits = ['0'] := by simp [Decimal.wholeDigits, hzero hnone, hnone]
    rw [hwhole]
    exact leads_zero
  have hlength := Decimal.length_paddedDigits d
  unfold Decimal.wholeDigits
  split_ifs with hexponent
  · exact leads_toDigits_append hdigits fun c => Decimal.isDigit_of_mem_zeros
  rcases Nat.lt_or_ge d.exponent.natAbs (Decimal.digitCount d.digits) with hmany | hfew
  · -- There are digits in front of the point, and no zeros in front of them.
    have hpadded : d.paddedDigits = Nat.toDigits 10 d.digits := by
      have hnone : d.exponent.natAbs + 1 - Decimal.digitCount d.digits = 0 := by omega
      rw [Decimal.paddedDigits, hnone]
      rfl
    rw [hlength, hpadded]
    exact leads_take_toDigits hdigits (by omega)
  · have hone : d.paddedDigits.length - d.exponent.natAbs = 1 := by omega
    have hwhole : d.paddedDigits.take 1 = ['0'] := by
      obtain ⟨zeros, hzeros⟩ :
          ∃ zeros, d.exponent.natAbs + 1 - Decimal.digitCount d.digits = zeros + 1 :=
        ⟨d.exponent.natAbs - Decimal.digitCount d.digits, by omega⟩
      rw [Decimal.paddedDigits, hzeros, List.replicate_succ]
      rfl
    rw [hone, hwhole]
    exact leads_zero

variable {d : Decimal} (negative : Bool)

/-- A whole number that is written with a point is read as a float. -/
theorem numeral_positional_whole (hzero : d.digits = 0 → d.exponent = 0) (hexponent : 0 ≤ d.exponent)
    (hshort : d.exponent + Decimal.digitCount d.digits ≤ 16) :
    ∃ x, Numeral (signed negative (d.positionalText ".0").toList) (.float x) := by
  have hdigits : Nat.ofDigitChars 10 (d.wholeDigits ++ ['0']) 0 =
      d.digits * 10 ^ d.exponent.natAbs * 10 := by
    rw [Nat.ofDigitChars_append, Decimal.ofDigitChars_wholeDigits hexponent, Nat.mul_comm _ 10]
    rfl
  have hs : d.digits * 10 ^ d.exponent.natAbs * 10 ≤ 10 ^ 17 :=
    calc d.digits * 10 ^ d.exponent.natAbs * 10
        ≤ 10 ^ Decimal.digitCount d.digits * 10 ^ d.exponent.natAbs * 10 :=
          Nat.mul_le_mul_right _ (Nat.mul_le_mul_right _ (Decimal.lt_pow_digitCount d.digits).le)
      _ = 10 ^ (Decimal.digitCount d.digits + d.exponent.natAbs + 1) := by
          rw [Nat.pow_succ, Nat.pow_add]
      _ ≤ 10 ^ 17 := Nat.pow_le_pow_right (by decide) (by omega)
  obtain ⟨x, hx⟩ := NumberLiteral.exists_scale_of_neg negative (hs.trans (by decide))
    (show (-1 : Int) < 0 by decide)
  rw [Decimal.positionalText_of_nonneg hexponent]
  exact ⟨x, numeral_point negative (leads_wholeDigits hzero) (List.cons_ne_nil _ _) leads_zero.1 hdigits
    (hs.trans (by decide)) hx⟩

theorem numeral_positional_fraction (hzero : d.digits = 0 → d.exponent = 0) (hexponent : d.exponent < 0)
    (hs : d.digits ≤ NumberLiteral.significandMax) {x : Binary64}
    (scaled : NumberLiteral.scale negative d.digits d.exponent = some x) :
    Numeral (signed negative (d.positionalText ".0").toList) (.float x) := by
  have hplaces := Decimal.length_fractionDigits hexponent
  have hne : d.fractionDigits ≠ [] := by
    intro hnone
    rw [hnone] at hplaces
    simp only [List.length_nil] at hplaces
    omega
  rw [Decimal.positionalText_of_neg hexponent]
  refine numeral_point negative (leads_wholeDigits hzero) hne
    (fun c => Decimal.isDigit_of_mem_fractionDigits) (Decimal.ofDigitChars_digits hexponent) hs ?_
  rwa [hplaces, Int.neg_neg]

theorem numeral_scientific (hpos : 0 < d.digits) (hs : d.digits ≤ NumberLiteral.significandMax)
    {x : Binary64} (scaled : NumberLiteral.scale negative d.digits d.exponent = some x) :
    Numeral (signed negative d.scientificText.toList) (.float x) := by
  have hlength : 0 < (Nat.toDigits 10 d.digits).length := Nat.length_toDigits_pos
  let first := d.exponent + (Nat.toDigits 10 d.digits).length - 1
  have htext : d.scientificText.toList = (Nat.toDigits 10 d.digits).take 1 ++
      ((if (Nat.toDigits 10 d.digits).drop 1 = [] then []
        else '.' :: (Nat.toDigits 10 d.digits).drop 1) ++
      'e' :: (if decide (first < 0) then '-' else '+') :: Nat.toDigits 10 first.natAbs) := by
    have hfirst : d.exponent + (Nat.toDigits 10 d.digits).length - 1 = first := rfl
    simp only [Decimal.scientificText, Decimal.digitText, hfirst]
    by_cases htail : (Nat.toDigits 10 d.digits).tail = [] <;> by_cases hbelow : first < 0 <;>
      simp [htail, hbelow]
  rw [htext]
  refine numeral_mark negative (leads_take_toDigits hpos Nat.one_pos)
    (fun c hc => Decimal.isDigit_of_mem_toDigits (List.mem_of_mem_drop hc)) (decide (first < 0))
    Nat.toDigits_ne_nil (fun c => Decimal.isDigit_of_mem_toDigits) ?_ hs ?_ scaled
  · rw [List.take_append_drop, Nat.ofDigitChars_ten_toDigits]
  · rw [Nat.ofDigitChars_ten_toDigits, List.length_drop]
    simp only [decide_eq_true_eq]
    split_ifs <;> omega

/-- The text of a decimal is read when its digits can be scaled. -/
theorem exists_numeral_decimal (h : d = ⟨0, 0⟩ ∨ 0 < d.digits ∧ d.digits ≤ NumberLiteral.significandMax ∧
      ∃ x, NumberLiteral.scale negative d.digits d.exponent = some x) :
    ∃ x, Numeral (signed negative (d.text .json).toList) (.float x) := by
  have hzero : d.digits = 0 → d.exponent = 0 := by
    rintro hnone
    rcases h with rfl | ⟨hpos, -⟩
    · rfl
    · omega
  simp only [Decimal.text, NumberLayout.json]
  split_ifs with hplain
  · rcases Int.lt_or_le d.exponent 0 with hneg | hnonneg
    · obtain rfl | ⟨hpos, hs, x, hx⟩ := h
      · cases hneg
      · exact ⟨x, numeral_positional_fraction negative hzero hneg hs hx⟩
    · refine numeral_positional_whole negative hzero hnonneg ?_
      rcases hplain with hnone | hplain
      · have hone : Decimal.digitCount 0 = 1 := rfl
        rw [hzero hnone, hnone, hone]
        decide
      · omega
  · obtain rfl | ⟨hpos, hs, x, hx⟩ := h
    · exact absurd (.inl rfl) hplain
    · exact ⟨x, numeral_scientific negative hpos hs hx⟩

/-- The text of every float is read as some float. -/
theorem exists_numeral_float (x : Binary64) : ∃ y, Numeral (x.text .json).toList (.float y) := by
  rw [Binary64.toList_text]
  refine exists_numeral_decimal x.negative ?_
  unfold Binary64.shortest
  split_ifs with hunits
  · exact .inl rfl
  · have hpos := Nat.pos_of_ne_zero hunits
    exact .inr ⟨Decimal.digits_shortest_pos .even x.representable hpos,
      (Decimal.digits_shortest_le .even x.representable).trans (by decide),
      Decimal.exists_scale_shortest x.negative x.representable hpos⟩

end Json

end Dunning
