import Dunning.Proofs.Condition.Comparison
import Dunning.Proofs.Json.Numeral
import Dunning.Proofs.Number.Whole
import Dunning.Proofs.Text.Latin

/-!
# Day counts

A day count is an integer of 64 bits, but it is compared as the number nearest to it, and so is an
integer that it is compared with. Reading and writing numbers loses nothing. What is lost is the
difference between integers that are nearest to one number, all of them outside of 53 bits.
-/
namespace Dunning

open Binary64 (nearestInt signed)

/-- An overdue invoice with a given day count. -/
def Event.overdue (days : Int) : Event :=
  { Event.bare "org" "Invoice Overdue" with daysOverdue := some days }

/-! ## Numbers as texts -/

namespace Binary64

theorem isBlank_of_mem_signed {negative : Bool} {text : List Char}
    (h : ∀ c ∈ text, Text.isBlank c = false) {c : Char} (hc : c ∈ signed negative text) :
    Text.isBlank c = false := by
  cases negative with
  | true =>
    rcases List.mem_cons.1 hc with rfl | hc
    · rfl
    · exact h c hc
  | false => exact h c hc

theorem isBlank_of_mem_positionalText {d : Decimal} {c : Char}
    (hc : c ∈ (d.positionalText "").toList) : Text.isBlank c = false := by
  rcases Int.lt_or_le d.exponent 0 with hneg | hnonneg
  · rw [Decimal.positionalText_of_neg hneg, List.mem_append, List.mem_cons] at hc
    rcases hc with hc | rfl | hc
    · exact Timestamp.isBlank_of_isDigit (Decimal.isDigit_of_mem_wholeDigits hc)
    · rfl
    · exact Timestamp.isBlank_of_isDigit (Decimal.isDigit_of_mem_fractionDigits hc)
  · rw [Decimal.positionalText_of_nonneg hnonneg, String.toList_empty, List.append_nil] at hc
    exact Timestamp.isBlank_of_isDigit (Decimal.isDigit_of_mem_wholeDigits hc)

theorem trim_eq_self {text : List Char} (h : ∀ c ∈ text, Text.isBlank c = false) :
    Text.trim text = text :=
  (Text.trim_eq_self_iff text).2
    ⟨fun c hc => h c (List.mem_of_mem_head? hc), fun c hc => h c (List.mem_of_getLast? hc)⟩

theorem toString_eq_numberText (i : Int) : toString i = Json.numberText (.int i) := by
  rw [← String.toList_inj, Json.toList_numberText, Int.toString_eq_repr, Int.repr_eq_if]
  by_cases h : i < 0
  · have hnatAbs : (-i).toNat = i.natAbs := by omega
    simp [signed, h, Int.not_le.2 h, hnatAbs, Nat.repr_eq_ofList_toDigits]
  · have hnatAbs : i.toNat = i.natAbs := by omega
    simp [signed, h, Int.not_lt.1 h, hnatAbs, Nat.repr_eq_ofList_toDigits]

/-- The text of an integer is read as the number nearest to the integer. -/
theorem read?_numberText {i : Int} (h : i.natAbs ≤ 2 ^ 64) :
    read? (Json.numberText (.int i)).toList = some (ofInt i) := by
  have hrounded : (⟨i.natAbs, 0⟩ : Decimal).roundUnits = (ofInt i).units := by
    simp [ofInt_eq h, Decimal.roundUnits, Decimal.ratio]
  have hnegative : (ofInt i).negative = decide (i < 0) := by rw [ofInt_eq h]
  rw [Json.toList_numberText, read?_whole _ Nat.toDigits_ne_nil fun _ => Decimal.isDigit_of_mem_toDigits,
    Nat.ofDigitChars_ten_toDigits, ← hnegative, Decimal.toBinary64_eq hrounded]

end Binary64

namespace Condition

/-- The text of a number is compared as this number. -/
theorem number?_text_plain (x : Binary64) : number? (x.text .plain) = some x := by
  have hblank : ∀ c ∈ (x.text .plain).toList, Text.isBlank c = false := by
    rw [Binary64.toList_text]
    exact fun c => Binary64.isBlank_of_mem_signed fun d => Binary64.isBlank_of_mem_positionalText
  rw [number?, Binary64.trim_eq_self hblank, Binary64.read?_text_plain]

/-- The text of an integer is compared as the number nearest to it. -/
theorem number?_numberText {i : Int} (h : i.natAbs ≤ 2 ^ 64) :
    number? (Json.numberText (.int i)) = some (.ofInt i) := by
  have hblank : ∀ c ∈ (Json.numberText (.int i)).toList, Text.isBlank c = false := by
    rw [Json.toList_numberText]
    exact fun c => Binary64.isBlank_of_mem_signed fun d hd =>
      Timestamp.isBlank_of_isDigit (Decimal.isDigit_of_mem_toDigits hd)
  rw [number?, Binary64.trim_eq_self hblank, Binary64.read?_numberText h]

variable (c : Condition) (event : Event) {d k : Int}

/-- An integer literal is compared as the number nearest to it, whichever way it is written. -/
theorem number?_valueText (hk : k.natAbs ≤ 2 ^ 64)
    (literal : c.value = .number (.int k) ∨ c.value = .string (toString k)) :
    number? c.valueText = some (.ofInt k) := by
  have htext : c.valueText = Json.numberText (.int k) := by
    rcases literal with literal | literal
    · simp [valueText, literal, Json.text, Json.chars, Json.scalar]
    · simp only [valueText, literal]
      exact Binary64.toString_eq_numberText k
  rw [htext, number?_numberText hk]

/-- A day count is compared with an integer literal as the numbers nearest to them. -/
theorem met_iff_nearest (hd : d.natAbs ≤ 2 ^ 64) (hk : k.natAbs ≤ 2 ^ 64)
    (field : c.field = "days_overdue") (known : event.daysOverdue = some d)
    (literal : c.value = .number (.int k) ∨ c.value = .string (toString k)) :
    (c.Met event .greater ↔ nearestInt k < nearestInt d) ∧
      (c.Met event .less ↔ nearestInt d < nearestInt k) ∧
      (c.Met event .equals ↔ nearestInt d = nearestInt k) := by
  have present : event.field? c.field = some (.number (.ofInt d)) := by
    simp [Event.field?, field, known]
  rw [← Binary64.less_ofInt hk hd, ← Binary64.less_ofInt hd hk, ← Binary64.same_ofInt hd hk]
  exact c.met_numbers present (number?_text_plain (.ofInt d)) (c.number?_valueText hk literal)

/-- Whether a day count is more than, less than or equal to an integer literal is asked of the
numbers nearest to them. These are in the order of the integers, except that different integers may
be nearest to one number, which is then equal to itself. If either integer is below `2 ^ 53` in
magnitude, then this does not happen, and the comparison is that of the integers. -/
theorem day_counts_compared_as_nearest
    (hd : -9223372036854775808 ≤ d ∧ d ≤ 9223372036854775807)
    (hk : -9223372036854775808 ≤ k ∧ k ≤ 9223372036854775807)
    (field : c.field = "days_overdue") (known : event.daysOverdue = some d)
    (literal : c.value = .number (.int k) ∨ c.value = .string (toString k)) :
    (c.Met event .greater ↔ k < d ∧ nearestInt k ≠ nearestInt d) ∧
    (c.Met event .less ↔ d < k ∧ nearestInt d ≠ nearestInt k) ∧
    (c.Met event .equals ↔ nearestInt d = nearestInt k) ∧
    (d.natAbs < 2 ^ 53 ∨ k.natAbs < 2 ^ 53 → (c.Met event .greater ↔ k < d) ∧
      (c.Met event .less ↔ d < k) ∧ (c.Met event .equals ↔ d = k)) := by
  obtain ⟨hgreater, hless, hequals⟩ :=
    c.met_iff_nearest event (by omega) (by omega) field known literal
  have hlt : ∀ i j : Int, nearestInt i < nearestInt j ↔ i < j ∧ nearestInt i ≠ nearestInt j := by
    intro i j
    have hmono : i ≤ j → nearestInt i ≤ nearestInt j := Binary64.nearestInt_mono
    have hmono' : j ≤ i → nearestInt j ≤ nearestInt i := Binary64.nearestInt_mono
    omega
  rw [hgreater, hless, hequals, hlt, hlt]
  refine ⟨Iff.rfl, Iff.rfl, Iff.rfl, fun hsmall => ?_⟩
  have hinj := Binary64.nearestInt_inj hsmall
  refine ⟨?_, ?_, hinj⟩ <;> omega

/-- Past 53 bits the even integers are still told apart, also when the literal is a text. -/
theorem day_counts_compared_as_nearest_even :
    (⟨"days_overdue", .equals, .string "9007199254740992"⟩ : Condition).Met
      (Event.overdue 9007199254740994) .greater := by
  have literal : "9007199254740992" = toString (9007199254740992 : Int) := by decide +kernel
  obtain ⟨hgreater, -⟩ := day_counts_compared_as_nearest
    ⟨"days_overdue", .equals, .string "9007199254740992"⟩ (Event.overdue 9007199254740994)
    (d := 9007199254740994) (k := 9007199254740992) (by decide) (by decide) rfl rfl
    (.inr (congrArg Json.string literal))
  exact hgreater.2 (by decide +kernel)

/-- An odd day count past 53 bits is equal to the even one in front of it. -/
theorem odd_day_count_is_even : (9007199254740992 : Int) < 9007199254740993 ∧
    ¬ (⟨"days_overdue", .greater, .number (.int 9007199254740992)⟩ : Condition).Met
      (Event.overdue 9007199254740993) .greater ∧
    (⟨"days_overdue", .equals, .number (.int 9007199254740992)⟩ : Condition).Met
      (Event.overdue 9007199254740993) .equals := by
  obtain ⟨hgreater, -, -⟩ := met_iff_nearest
    ⟨"days_overdue", .greater, .number (.int 9007199254740992)⟩ (Event.overdue 9007199254740993)
    (d := 9007199254740993) (k := 9007199254740992) (by decide) (by decide) rfl rfl (.inl rfl)
  obtain ⟨-, -, hequals⟩ := met_iff_nearest
    ⟨"days_overdue", .equals, .number (.int 9007199254740992)⟩ (Event.overdue 9007199254740993)
    (d := 9007199254740993) (k := 9007199254740992) (by decide) (by decide) rfl rfl (.inl rfl)
  exact ⟨by decide, fun h => absurd (hgreater.1 h) (by decide +kernel),
    hequals.2 (by decide +kernel)⟩

end Condition

end Dunning
