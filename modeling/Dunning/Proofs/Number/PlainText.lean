import Dunning.Proofs.Number.Notation

/-!
# Plain text that is read back

Free text is read to the nearest number, so that the plain text of a number is read as this number:
the digits in it are those of its shortest decimal, padded with zeros up to the point.
-/
namespace Dunning.Binary64

open Timestamp (Ends ends_cons)

/-! ## Digits and signs -/

theorem ends_nil : Ends [] := by simp [Ends]

theorem takeDigits_append {ds rest : List Char} (h : ∀ c ∈ ds, c.isDigit = true) (hrest : Ends rest)
    (acc count : Nat) : takeDigits acc count (ds ++ rest) =
      (Nat.ofDigitChars 10 ds acc, count + ds.length, rest) := by
  induction ds generalizing acc count with
  | nil =>
    cases rest with
    | nil => rfl
    | cons c rest => simp [takeDigits, digit?, hrest c rfl]
  | cons c ds ih =>
    have hc := h c List.mem_cons_self
    rw [List.cons_append, takeDigits, digit?, if_pos hc]
    simp only
    rw [ih (fun d hd => h d (List.mem_cons_of_mem c hd)), Nat.ofDigitChars_cons, Nat.mul_comm acc,
      List.length_cons, Nat.add_right_comm, Nat.add_assoc]

/-- A text behind its sign; plus is not written. -/
def signed (negative : Bool) (text : List Char) : List Char := if negative then '-' :: text else text

theorem takeSign_signed (negative : Bool) {c : Char} (hc : c.isDigit = true) (cs : List Char) :
    takeSign (signed negative (c :: cs)) = (negative, c :: cs) := by
  cases negative with
  | true => rfl
  | false =>
    have hminus : c ≠ '-' := by
      rintro rfl
      cases hc
    have hplus : c ≠ '+' := by
      rintro rfl
      cases hc
    simp [signed, takeSign, hminus, hplus]

/-- Digits alone are the whole number that they denote. -/
theorem read?_whole (negative : Bool) {ds : List Char} (hne : ds ≠ [])
    (h : ∀ c ∈ ds, c.isDigit = true) : read? (signed negative ds) =
      Decimal.toBinary64 negative ⟨Nat.ofDigitChars 10 ds 0, 0⟩ := by
  obtain ⟨c, cs, rfl⟩ := List.exists_cons_of_ne_nil hne
  have hdigits := takeDigits_append h ends_nil 0 0
  rw [List.append_nil] at hdigits
  simp [read?, takeSign_signed negative (h c List.mem_cons_self), hdigits, readExponent]

/-- Digits around a point are one number, divided by a power of ten. -/
theorem read?_fraction (negative : Bool) {whole fraction : List Char} (hne : whole ≠ [])
    (hwhole : ∀ c ∈ whole, c.isDigit = true) (hfraction : ∀ c ∈ fraction, c.isDigit = true) :
    read? (signed negative (whole ++ '.' :: fraction)) =
      Decimal.toBinary64 negative ⟨Nat.ofDigitChars 10 (whole ++ fraction) 0, -fraction.length⟩ := by
  obtain ⟨c, cs, rfl⟩ := List.exists_cons_of_ne_nil hne
  have hdigits := takeDigits_append hwhole (ends_cons (c := '.') rfl fraction) 0 0
  have hplaces := takeDigits_append hfraction ends_nil (Nat.ofDigitChars 10 (c :: cs) 0) 0
  rw [List.append_nil] at hplaces
  rw [Nat.ofDigitChars_append]
  rw [List.cons_append] at hdigits ⊢
  simp [read?, takeSign_signed negative (hwhole c List.mem_cons_self), hdigits, hplaces, readExponent]

/-! ## Positional notation -/

/-- Positional notation is read as a decimal with the same value. -/
theorem read?_positionalText (negative : Bool) (d : Decimal) : ∃ e : Decimal,
    e.roundUnits = d.roundUnits ∧
      read? (signed negative (d.positionalText "").toList) = e.toBinary64 negative := by
  rcases Int.lt_or_le d.exponent 0 with hneg | hnonneg
  · refine ⟨d, rfl, ?_⟩
    rw [Decimal.positionalText_of_neg hneg, read?_fraction negative d.wholeDigits_ne_nil
      (fun _ => Decimal.isDigit_of_mem_wholeDigits) fun _ => Decimal.isDigit_of_mem_fractionDigits,
      Decimal.ofDigitChars_digits hneg, Decimal.length_fractionDigits hneg, Int.neg_neg]
  · refine ⟨⟨d.digits * 10 ^ d.exponent.natAbs, 0⟩, ?_, ?_⟩
    · simp [Decimal.roundUnits, Decimal.ratio, Int.not_lt.2 hnonneg]
    · rw [Decimal.positionalText_of_nonneg hnonneg, String.toList_empty, List.append_nil,
        read?_whole negative d.wholeDigits_ne_nil fun _ => Decimal.isDigit_of_mem_wholeDigits,
        Decimal.ofDigitChars_wholeDigits hnonneg]

/-! ## The text of a number -/

/-- The decimal that is written for the magnitude of a number. -/
def shortest (tie : Decimal.Tie) (x : Binary64) : Decimal :=
  if x.units = 0 then ⟨0, 0⟩ else Decimal.shortest tie x.units

theorem roundUnits_shortest (tie : Decimal.Tie) (x : Binary64) :
    (x.shortest tie).roundUnits = x.units := by
  unfold shortest
  split_ifs with hzero
  · rw [hzero]
    exact roundUnits_zero 1
  · exact Decimal.roundUnits_shortest tie x.representable

theorem toList_text (layout : NumberLayout) (x : Binary64) : (x.text layout).toList =
    signed x.negative ((x.shortest layout.tie).text layout).toList := by
  simp only [text]
  cases x.negative <;> simp [signed, shortest]

/-- The plain text of a number is read as this number. -/
theorem read?_text_plain (x : Binary64) : read? (x.text .plain).toList = some x := by
  obtain ⟨e, he, hread⟩ := read?_positionalText x.negative (x.shortest .up)
  rw [toList_text]
  exact hread.trans (Decimal.toBinary64_eq (he.trans (roundUnits_shortest .up x)))

end Dunning.Binary64
