import Dunning.Condition

/-!
# Comparisons of a field with a literal

A field and a literal are compared by their texts. Where both texts stand for numbers, exactly one
of `>`, `<` and `=` holds, since the numbers are in a total order. Elsewhere neither order holds,
and equality is that of the texts.
-/
namespace Dunning

/-- No two of three statements hold together. -/
def AtMostOne (p q r : Prop) : Prop := ¬ (p ∧ q) ∧ ¬ (p ∧ r) ∧ ¬ (q ∧ r)

def ExactlyOne (p q r : Prop) : Prop := (p ∨ q ∨ r) ∧ AtMostOne p q r

namespace Binary64

variable (a b : Binary64)

theorem less_iff : a.less b = true ↔ a.signedUnits < b.signedUnits := by simp [less]

theorem same_iff : a.same b = true ↔ a.signedUnits = b.signedUnits := by simp [same]

/-- The order of numbers is total, and the two zeros are equal in it. -/
theorem exactlyOne_less : ExactlyOne (b.less a = true) (a.less b = true) (a.same b = true) := by
  simp only [ExactlyOne, AtMostOne, less_iff, same_iff]
  omega

end Binary64

namespace Event

/-- Whether an event has a value for the field of a name. -/
def Knows (event : Event) (field : String) : Prop :=
  (field = "amount" ∧ event.amount ≠ none) ∨
  (field = "days_overdue" ∧ event.daysOverdue ≠ none) ∨
  (field = "tag" ∧ event.contactTags ≠ none)

theorem field?_eq_none_iff (event : Event) (field : String) :
    event.field? field = none ↔ ¬ event.Knows field := by
  unfold field? Knows
  by_cases hamount : field = "amount"
  · simp [hamount]
  by_cases hdays : field = "days_overdue"
  · simp [hdays]
  by_cases htag : field = "tag"
  · simp [htag]
  simp [hamount, hdays, htag]

theorem exists_field?_of_knows {event : Event} {field : String} (known : event.Knows field) :
    ∃ actual, event.field? field = some actual := by
  apply Option.ne_none_iff_exists'.1
  rw [Ne, field?_eq_none_iff]
  exact not_not_intro known

end Event

namespace Condition

section
variable (actual target : String) {a b : Binary64}

/-- Two numbers are compared as numbers, whatever their texts. -/
theorem compare_numbers (ha : number? actual = some a) (hb : number? target = some b) :
    compare .greater actual target = b.less a ∧ compare .less actual target = a.less b ∧
      compare .equals actual target = a.same b := by
  simp [compare, ha, hb]

/-- Without two numbers there is no order, and the texts are compared as they are. -/
theorem compare_texts (h : number? actual = none ∨ number? target = none) :
    compare .greater actual target = false ∧ compare .less actual target = false ∧
      compare .equals actual target = (actual == target) := by
  rcases h with h | h
  · simp [compare, h]
  · cases hactual : number? actual <;> simp [compare, h, hactual]

end

theorem compare_atMostOne (actual target : String) :
    AtMostOne (compare .greater actual target = true) (compare .less actual target = true)
      (compare .equals actual target = true) := by
  cases ha : number? actual with
  | none =>
    obtain ⟨hgreater, hless, -⟩ := compare_texts actual target (.inl ha)
    simp [AtMostOne, hgreater, hless]
  | some a =>
    cases hb : number? target with
    | none =>
      obtain ⟨hgreater, hless, -⟩ := compare_texts actual target (.inr hb)
      simp [AtMostOne, hgreater, hless]
    | some b =>
      obtain ⟨hgreater, hless, hequals⟩ := compare_numbers actual target ha hb
      rw [hgreater, hless, hequals]
      exact (a.exactlyOne_less b).2

/-- A text equals itself, also where it is compared as a number. -/
theorem compare_self (text : String) : compare .equals text text = true := by
  cases h : number? text with
  | none => simp [(compare_texts text text (.inl h)).2.2]
  | some a => simp [(compare_numbers text text h h).2.2, Binary64.same_iff]

/-- Whether an event meets a condition under a given operator. -/
def Met (c : Condition) (event : Event) (operator : Operator) : Prop :=
  ({ c with operator := operator } : Condition).holds event = true

section
variable (c : Condition) {event : Event} {actual : FieldValue}

theorem not_met_of_absent (absent : event.field? c.field = none) (operator : Operator) :
    ¬ c.Met event operator := by
  simp [Met, holds, absent]

/-- The texts alone decide, except whether tags contain a text. -/
theorem met_iff_compare (present : event.field? c.field = some actual) (operator : Operator)
    (hoperator : operator ≠ .contains) :
    c.Met event operator ↔ compare operator actual.text c.valueText = true := by
  cases actual with
  | number x => simp only [Met, holds, present]; rfl
  | tags names => simp only [Met, holds, present, if_neg hoperator]; rfl

theorem met_numbers (present : event.field? c.field = some actual) {a b : Binary64}
    (ha : number? actual.text = some a) (hb : number? c.valueText = some b) :
    (c.Met event .greater ↔ b.less a = true) ∧ (c.Met event .less ↔ a.less b = true) ∧
      (c.Met event .equals ↔ a.same b = true) := by
  obtain ⟨hgreater, hless, hequals⟩ := compare_numbers _ _ ha hb
  rw [← hgreater, ← hless, ← hequals]
  exact ⟨c.met_iff_compare present .greater (by decide),
    c.met_iff_compare present .less (by decide), c.met_iff_compare present .equals (by decide)⟩

theorem met_texts (present : event.field? c.field = some actual)
    (h : number? actual.text = none ∨ number? c.valueText = none) :
    ¬ c.Met event .greater ∧ ¬ c.Met event .less ∧
      (c.Met event .equals ↔ actual.text = c.valueText) := by
  obtain ⟨hgreater, hless, hequals⟩ := compare_texts _ _ h
  rw [c.met_iff_compare present .greater (by decide), c.met_iff_compare present .less (by decide),
    c.met_iff_compare present .equals (by decide), hgreater, hless, hequals]
  simp

theorem atMostOne_met (event : Event) :
    AtMostOne (c.Met event .greater) (c.Met event .less) (c.Met event .equals) := by
  cases hfield : event.field? c.field with
  | none => simp [AtMostOne, c.not_met_of_absent hfield]
  | some actual =>
    rw [c.met_iff_compare hfield .greater (by decide), c.met_iff_compare hfield .less (by decide),
      c.met_iff_compare hfield .equals (by decide)]
    exact compare_atMostOne actual.text c.valueText

theorem describe_eq (present : event.field? c.field = some actual) : c.describe event =
    c.field ++ " " ++ c.operator.symbol ++ " " ++ c.valueText ++
      " (actual: " ++ actual.text ++ ")" := by
  simp only [describe, present]

end

/-- Of `>`, `<` and `=` with one field and one literal an event meets at most one. Where the event
has the field, it meets exactly one if the two texts are numbers, namely the one that holds of the
numbers; else it meets at most `=`, and this if and only if the texts are the same. In any case it
meets `=` with the text that the description shows. Where the event does not have the field, it
meets nothing. -/
theorem comparisons_partition (c : Condition) (event : Event) :
    AtMostOne (c.Met event .greater) (c.Met event .less) (c.Met event .equals) ∧
    (event.Knows c.field → ∃ actual, event.field? c.field = some actual ∧
      (∀ a b, number? actual.text = some a → number? c.valueText = some b →
        ExactlyOne (c.Met event .greater) (c.Met event .less) (c.Met event .equals) ∧
        (c.Met event .greater ↔ b.less a = true) ∧ (c.Met event .less ↔ a.less b = true) ∧
        (c.Met event .equals ↔ a.same b = true)) ∧
      (number? actual.text = none ∨ number? c.valueText = none →
        ¬ c.Met event .greater ∧ ¬ c.Met event .less ∧
        (c.Met event .equals ↔ actual.text = c.valueText)) ∧
      c.describe event = c.field ++ " " ++ c.operator.symbol ++ " " ++ c.valueText ++
        " (actual: " ++ actual.text ++ ")" ∧
      ({ c with value := .string actual.text } : Condition).Met event .equals) ∧
    (¬ event.Knows c.field → ∀ operator, ¬ c.Met event operator) := by
  refine ⟨c.atMostOne_met event, fun known => ?_, fun unknown => ?_⟩
  · obtain ⟨actual, hfield⟩ := Event.exists_field?_of_knows known
    refine ⟨actual, hfield, fun a b ha hb => ?_, c.met_texts hfield, c.describe_eq hfield, ?_⟩
    · have hmet := c.met_numbers hfield ha hb
      refine ⟨?_, hmet⟩
      rw [hmet.1, hmet.2.1, hmet.2.2]
      exact a.exactlyOne_less b
    · let same : Condition := { c with value := .string actual.text }
      apply (same.met_iff_compare hfield .equals (by decide)).2
      exact compare_self actual.text
  · exact c.not_met_of_absent ((event.field?_eq_none_iff c.field).2 unknown)

end Condition

end Dunning
