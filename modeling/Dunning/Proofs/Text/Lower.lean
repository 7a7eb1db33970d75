import Dunning.Text.LowerCase

/-!
# Lower case of a part of a text

The capital sigma is the only letter whose lower case depends on what stands around it. A part of
a text is in lower case there as it is on its own if and only if each of its capital sigmas ends a
word in the text just when it does in the part.
-/
namespace Dunning.Text

/-- A text contains another if and only if the other is one of its parts. -/
theorem contains_iff_infix (needle text : List Char) :
    contains needle text = true ↔ needle <:+: text := by
  induction text with
  | nil => simp [contains]
  | cons c rest ih =>
    rw [contains, Bool.or_eq_true, ih, List.isPrefixOf_iff_prefix, List.infix_cons_iff]

/-- Whether a letter between two texts is the last of a word. The text before it is in reverse. -/
def endsWord (before after : List Char) : Bool := meetsCased before && !meetsCased after

/-- The lower case of a character between two texts, the one before it in reverse. -/
def lowerAt (before : List Char) (c : Char) (after : List Char) : List Char :=
  if c = '\u03a3' then [if endsWord before after then '\u03c2' else '\u03c3'] else lowerChar c

/-- The lower case of a text between two others, the one before it in reverse. -/
def lowerWithin (before : List Char) : List Char → List Char → List Char
  | [], _ => []
  | c :: rest, after => lowerAt before c (rest ++ after) ++ lowerWithin (c :: before) rest after

theorem lowerFrom_cons (before : List Char) (c : Char) (rest : List Char) :
    lowerFrom before (c :: rest) = lowerAt before c rest ++ lowerFrom (c :: before) rest := rfl

theorem lowerFrom_append (before text after : List Char) : lowerFrom before (text ++ after) =
    lowerWithin before text after ++ lowerFrom (text.reverse ++ before) after := by
  induction text generalizing before with
  | nil => rfl
  | cons c rest ih =>
    rw [List.cons_append, lowerFrom_cons, ih, lowerWithin, List.append_assoc]
    simp

theorem lower_eq_lowerWithin (text : List Char) : lower text = lowerWithin [] text [] := by
  have h := lowerFrom_append [] text []
  rw [List.append_nil, lowerFrom, List.append_nil] at h
  exact h

/-- The lower case of a text, cut where the text is cut. -/
theorem lower_append_append (before text after : List Char) : lower (before ++ text ++ after) =
    lowerWithin [] before (text ++ after) ++ lowerWithin before.reverse text after ++
      lowerFrom (text.reverse ++ before.reverse) after := by
  rw [lower, List.append_assoc, lowerFrom_append, lowerFrom_append, List.append_nil,
    List.append_assoc]

theorem length_lowerAt (c : Char) (before after before' after' : List Char) :
    (lowerAt before c after).length = (lowerAt before' c after').length := by
  unfold lowerAt
  split <;> rfl

theorem lowerAt_eq_iff (c : Char) (before after before' after' : List Char) :
    lowerAt before c after = lowerAt before' c after' ↔
      (c = '\u03a3' → endsWord before after = endsWord before' after') := by
  unfold lowerAt
  by_cases hsigma : c = '\u03a3'
  · cases endsWord before after <;> cases endsWord before' after' <;> simp [hsigma]
  · simp [hsigma]

/-- Two surroundings give a text the same lower case if and only if the same of its sigmas end a
word in both. -/
theorem lowerWithin_eq_iff (text before after before' after' : List Char) :
    lowerWithin before text after = lowerWithin before' text after' ↔
      ∀ p q, text = p ++ '\u03a3' :: q →
        endsWord (p.reverse ++ before) (q ++ after) =
          endsWord (p.reverse ++ before') (q ++ after') := by
  induction text generalizing before before' with
  | nil => simp [lowerWithin]
  | cons c rest ih =>
    -- A character becomes equally many in any surroundings, so that the two can be cut behind it.
    have hsplit : lowerWithin before (c :: rest) after = lowerWithin before' (c :: rest) after' ↔
        lowerAt before c (rest ++ after) = lowerAt before' c (rest ++ after') ∧
          lowerWithin (c :: before) rest after = lowerWithin (c :: before') rest after' := by
      constructor
      · intro h
        exact List.append_inj h (length_lowerAt c _ _ _ _)
      · rintro ⟨hhead, htail⟩
        rw [lowerWithin, lowerWithin, hhead, htail]
    rw [hsplit, lowerAt_eq_iff, ih]
    constructor
    · rintro ⟨hhead, htail⟩ p q h
      cases p with
      | nil =>
        obtain ⟨rfl, rfl⟩ := List.cons_eq_cons.1 h
        exact hhead rfl
      | cons d p =>
        obtain ⟨rfl, rfl⟩ := List.cons_eq_cons.1 h
        simpa using htail p q rfl
    · intro h
      constructor
      · rintro rfl
        exact h [] rest rfl
      · rintro p q rfl
        simpa using h (c :: p) q rfl

/-- Whether each capital sigma of a text ends a word between two other texts just when it does
without them. The text before is in reverse. -/
def SigmasKept (before text after : List Char) : Prop :=
  ∀ p q, text = p ++ '\u03a3' :: q →
    endsWord (p.reverse ++ before) (q ++ after) = endsWord p.reverse q

/-- A part of a text is in lower case as on its own if and only if its sigmas are. -/
theorem lowerWithin_eq_lower_iff (before text after : List Char) :
    lowerWithin before text after = lower text ↔ SigmasKept before text after := by
  rw [lower_eq_lowerWithin, lowerWithin_eq_iff]
  simp [SigmasKept]

instance (before text after : List Char) : Decidable (SigmasKept before text after) :=
  decidable_of_iff _ (lowerWithin_eq_lower_iff before text after)

/-- In lower case a text contains a part of it whose sigmas are kept. -/
theorem lower_infix_lower {before text after : List Char}
    (kept : SigmasKept before.reverse text after) :
    lower text <:+: lower (before ++ text ++ after) := by
  rw [lower_append_append, (lowerWithin_eq_lower_iff _ _ _).2 kept]
  exact List.infix_append _ _ _

end Dunning.Text
