/-!
# Lines
-/
namespace Dunning.Text

/-- The pieces of a text between its line feeds. -/
def lines : List Char → List (List Char)
  | [] => [[]]
  | c :: rest =>
      if c = '\n' then [] :: lines rest
      else match lines rest with
        | [] => [[c]]
        | line :: others => (c :: line) :: others

theorem lines_ne_nil (text : List Char) : lines text ≠ [] := by
  cases text with
  | nil => simp [lines]
  | cons c rest =>
    simp only [lines]
    split
    · simp
    · split <;> simp

/-- Nothing but the line feeds is lost. -/
theorem intercalate_lines (text : List Char) : ['\n'].intercalate (lines text) = text := by
  induction text with
  | nil => rfl
  | cons c rest ih =>
    simp only [lines]
    have hne := lines_ne_nil rest
    split
    · subst_vars
      cases h : lines rest with
      | nil => exact absurd h hne
      | cons line others => rw [← ih, h]; rfl
    · cases h : lines rest with
      | nil => exact absurd h hne
      | cons line others =>
        rw [h] at ih
        rw [← ih]
        cases others <;> rfl

end Dunning.Text
