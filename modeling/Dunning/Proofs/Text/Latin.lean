import Mathlib
import Dunning.Proofs.Text.Lower
import Dunning.Text.Blank

-- The lemmas on the case of characters come with the whole library only.

/-!
# Latin capitals

To compare two texts without regard to the case of the letters A to Z is to compare them with these
letters in lower case. The lower case of a text is the same text in this sense if and only if the
text has no capitals but these. Lower case makes no blanks, so that it leaves the ends of a text
where they are.
-/
namespace Dunning.Text

/-- A text with its Latin capitals in lower case. -/
def latin (text : List Char) : List Char := text.map Char.toLower

/-- Whether a text has no capitals but Latin ones. A character that is not a capital is its own
lower case. -/
def LatinCapitals (text : List Char) : Prop := ∀ c ∈ text, c.isUpper = true ∨ lower [c] = [c]

theorem sameLatin_iff (s t : List Char) : sameLatin s t = true ↔ latin s = latin t := by
  simp [sameLatin, latin]

@[simp] theorem latin_latin (text : List Char) : latin (latin text) = latin text := by
  simp [latin, Char.toLower_toLower_eq_toLower]

theorem lower_singleton (c : Char) : lower [c] = lowerAt [] c [] := by
  rw [lower, lowerFrom_cons, lowerFrom, List.append_nil]

theorem isUpper_iff (c : Char) : c.isUpper = true ↔ 0x41 ≤ c.toNat ∧ c.toNat ≤ 0x5A := by
  simp [Char.isUpper, UInt32.le_iff_toNat_le]

/-- What the lower case of a single character can be. -/
theorem lowerChar_cases (c : Char) : lowerChar c = [c] ∨
    c = '\u0130' ∧ lowerChar c = ['i', '\u0307'] ∨
    ∃ run ∈ capitalRuns, run.covers c = true ∧
      lowerChar c = [Char.ofNat (run.lower + (c.toNat - run.first))] := by
  by_cases hdotted : c = '\u0130'
  · exact .inr (.inl ⟨hdotted, by simp [lowerChar, hdotted]⟩)
  cases hfound : capitalRuns.find? fun r => r.covers c with
  | none => exact .inl (by simp [lowerChar, hdotted, hfound])
  | some run =>
    have hcovers : run.covers c = true := by simpa using List.find?_some hfound
    refine .inr (.inr ⟨run, List.mem_of_find?_eq_some hfound, hcovers, ?_⟩)
    simp [lowerChar, hdotted, hfound]

theorem bounds_of_covers {run : CapitalRun} {c : Char} (h : run.covers c = true) :
    run.first ≤ c.toNat ∧ c.toNat ≤ run.last := by
  simp only [CapitalRun.covers, Bool.and_eq_true, decide_eq_true_eq] at h
  exact h.1

/-- The Latin capitals are the first run, and all others lie far behind them. -/
theorem latin_or_high : ∀ run ∈ capitalRuns,
    (run.first = 0x41 ∧ run.last = 0x5A) ∨ 0x80 ≤ run.first := by decide +kernel

theorem lowerAt_of_isUpper {c : Char} (h : c.isUpper = true) (before after : List Char) :
    lowerAt before c after = [c.toLower] := by
  obtain ⟨hfirst, hlast⟩ := (isUpper_iff c).1 h
  have hsigma : c ≠ '\u03a3' := by
    rintro rfl
    simp at hlast
  have hdotted : c ≠ '\u0130' := by
    rintro rfl
    simp at hlast
  have hfound : (capitalRuns.find? fun r => r.covers c) = some ⟨0x41, 0x5A, 1, 0x61⟩ := by
    apply List.find?_cons_of_pos
    simp [CapitalRun.covers, hfirst, hlast, Nat.mod_one]
  have hcode : 0x61 + (c.toNat - 0x41) = c.toNat + 32 := by omega
  simp only [lowerAt, lowerChar, if_neg hsigma, if_neg hdotted, hfound, hcode,
    Char.toLower_eq_of_isUpper h]

theorem lowerAt_of_fixed {c : Char} (h : lower [c] = [c]) (before after : List Char) :
    lowerAt before c after = [c] := by
  rw [lower_singleton] at h
  by_cases hsigma : c = '\u03a3'
  · subst hsigma
    exact absurd h (by decide)
  · simpa [lowerAt, hsigma] using h

/-- A capital that is no Latin one lies behind all Latin letters. -/
theorem high_of_capital {c : Char} (hlatin : c.isUpper ≠ true) (hfixed : lower [c] ≠ [c]) :
    0x80 ≤ c.toNat := by
  rw [lower_singleton, lowerAt] at hfixed
  by_cases hsigma : c = '\u03a3'
  · simp [hsigma]
  rw [if_neg hsigma] at hfixed
  rcases lowerChar_cases c with hsame | ⟨hdotted, -⟩ | ⟨run, hmem, hcovers, -⟩
  · exact absurd hsame hfixed
  · simp [hdotted]
  · obtain ⟨hfirst, hlast⟩ := bounds_of_covers hcovers
    rcases latin_or_high run hmem with ⟨hA, hZ⟩ | hhigh
    · exact absurd ((isUpper_iff c).2 ⟨by omega, by omega⟩) hlatin
    · omega

theorem latinCapitals_of_low {text : List Char} (h : ∀ c ∈ text, c.toNat < 0x80) :
    LatinCapitals text := by
  intro c hc
  by_contra hcapital
  rw [not_or] at hcapital
  have hlow := h c hc
  have hhigh := high_of_capital hcapital.1 hcapital.2
  omega

/-- Behind the Latin letters no character is taken for another one. -/
theorem toLower_ne_of_high {c d : Char} (hhigh : 0x80 ≤ c.toNat) (hne : d ≠ c) :
    d.toLower ≠ c.toLower := by
  have hc : c.toLower = c := by
    apply Char.toLower_eq_of_not_isUpper
    rw [isUpper_iff]
    omega
  rw [hc]
  by_cases hd : d.isUpper = true
  · obtain ⟨-, hlast⟩ := (isUpper_iff d).1 hd
    rw [Char.toLower_eq_of_isUpper hd]
    rintro rfl
    rw [Char.toNat_ofNat] at hhigh
    split at hhigh <;> omega
  · rwa [Char.toLower_eq_of_not_isUpper hd]

/-- The lower case of any other capital begins with another character. -/
theorem exists_lowerAt_cons {c : Char} (hlatin : c.isUpper ≠ true) (hfixed : lower [c] ≠ [c])
    (before after : List Char) :
    ∃ d rest, lowerAt before c after = d :: rest ∧ d.toLower ≠ c.toLower := by
  have hhigh := high_of_capital hlatin hfixed
  rw [lower_singleton, lowerAt] at hfixed
  by_cases hsigma : c = '\u03a3'
  · subst hsigma
    rw [lowerAt, if_pos rfl]
    refine ⟨_, [], rfl, toLower_ne_of_high hhigh ?_⟩
    split <;> decide
  rw [if_neg hsigma] at hfixed
  rw [lowerAt, if_neg hsigma]
  rcases lowerChar_cases c with hsame | ⟨rfl, hlower⟩ | ⟨run, -, -, hlower⟩
  · exact absurd hsame hfixed
  · exact ⟨'i', ['\u0307'], hlower, by decide⟩
  · refine ⟨_, [], hlower, toLower_ne_of_high hhigh fun hsame => hfixed ?_⟩
    rw [hlower, hsame]

theorem lowerFrom_of_latinCapitals {text : List Char} (h : LatinCapitals text)
    (before : List Char) : lowerFrom before text = latin text := by
  induction text generalizing before with
  | nil => rfl
  | cons c rest ih =>
    have hhead : lowerAt before c rest = [c.toLower] := by
      by_cases hlatin : c.isUpper = true
      · exact lowerAt_of_isUpper hlatin before rest
      · have hfixed : lower [c] = [c] := (h c (by simp)).resolve_left hlatin
        rw [lowerAt_of_fixed hfixed, Char.toLower_eq_of_not_isUpper hlatin]
    rw [lowerFrom_cons, hhead, ih (fun d hd => h d (by simp [hd]))]
    rfl

theorem lower_of_latinCapitals {text : List Char} (h : LatinCapitals text) :
    lower text = latin text := lowerFrom_of_latinCapitals h []

theorem latinCapitals_of_latin_lowerFrom {text before : List Char}
    (h : latin (lowerFrom before text) = latin text) : LatinCapitals text := by
  induction text generalizing before with
  | nil => simp [LatinCapitals]
  | cons c rest ih =>
    by_cases hlatin : c.isUpper = true
    · rw [lowerFrom_cons, lowerAt_of_isUpper hlatin] at h
      have hrest : LatinCapitals rest := ih (List.tail_eq_of_cons_eq h)
      simpa [LatinCapitals, hlatin] using hrest
    by_cases hfixed : lower [c] = [c]
    · rw [lowerFrom_cons, lowerAt_of_fixed hfixed] at h
      have hrest : LatinCapitals rest := ih (List.tail_eq_of_cons_eq h)
      simpa [LatinCapitals, hfixed] using hrest
    · obtain ⟨d, more, hlower, hne⟩ := exists_lowerAt_cons hlatin hfixed before rest
      rw [lowerFrom_cons, hlower] at h
      exact absurd (List.head_eq_of_cons_eq h) hne

/-- Lower case leaves a text the same but for its Latin letters if and only if it has no capitals
but Latin ones. -/
theorem latin_lower_iff (text : List Char) :
    latin (lower text) = latin text ↔ LatinCapitals text := by
  constructor
  · exact latinCapitals_of_latin_lowerFrom
  · intro h
    rw [lower_of_latinCapitals h, latin_latin]

theorem isBlank_eq_false_iff (c : Char) :
    isBlank c = false ↔ ∀ r ∈ blankRanges, ¬ (r.1 ≤ c.toNat ∧ c.toNat ≤ r.2) := by
  simp [isBlank]

theorem isBlank_toLower (c : Char) : isBlank c.toLower = isBlank c := by
  by_cases hlatin : c.isUpper = true
  · have hnone : ∀ n < 0x80, 0x21 ≤ n → isBlank (Char.ofNat n) = false := by decide
    obtain ⟨hfirst, hlast⟩ := (isUpper_iff c).1 hlatin
    have hc := hnone c.toNat (by omega) (by omega)
    rw [Char.ofNat_toNat] at hc
    rw [Char.toLower_eq_of_isUpper hlatin, hnone _ (by omega) (by omega), hc]
  · rw [Char.toLower_eq_of_not_isUpper hlatin]

theorem trim_latin (text : List Char) : trim (latin text) = latin (trim text) := by
  have hblank : isBlank ∘ Char.toLower = isBlank := funext isBlank_toLower
  simp only [trim, dropBlank, latin, List.dropWhile_map, hblank, ← List.map_reverse]

/-- No lower case letter is a blank. -/
theorem blanks_beside_runs : ∀ run ∈ capitalRuns, ∀ r ∈ blankRanges,
    r.2 < run.lower ∨ run.lower + (run.last - run.first) < r.1 := by decide +kernel

theorem isBlank_of_mem_lowerAt {before after : List Char} {c d : Char} (h : isBlank c = false)
    (hd : d ∈ lowerAt before c after) : isBlank d = false := by
  rw [lowerAt] at hd
  split at hd
  · split at hd <;> rw [List.mem_singleton.1 hd] <;> decide
  rcases lowerChar_cases c with hsame | ⟨-, hlower⟩ | ⟨run, hmem, hcovers, hlower⟩
  · rw [hsame, List.mem_singleton] at hd
    rwa [hd]
  · rw [hlower, List.mem_pair] at hd
    rcases hd with rfl | rfl <;> decide
  · rw [hlower, List.mem_singleton] at hd
    obtain ⟨hfirst, hlast⟩ := bounds_of_covers hcovers
    rw [isBlank_eq_false_iff, hd, Char.toNat_ofNat]
    intro r hr
    have hpositive : ∀ r ∈ blankRanges, 0 < r.1 := by decide
    have hr0 := hpositive r hr
    have hbeside := blanks_beside_runs run hmem r hr
    split <;> omega

theorem dropBlank_eq_self_iff (text : List Char) :
    dropBlank text = text ↔ ∀ c ∈ text.head?, isBlank c = false := by
  cases text with
  | nil => simp [dropBlank]
  | cons c rest =>
    by_cases hblank : isBlank c = true
    · have hshort : (dropBlank (c :: rest)).length < (c :: rest).length := by
        rw [dropBlank, List.dropWhile_cons_of_pos hblank, List.length_cons]
        exact Nat.lt_succ_of_le (List.dropWhile_suffix isBlank).length_le
      simp [hblank, ne_of_apply_ne List.length hshort.ne]
    · simp [dropBlank, hblank]

/-- Trimming leaves a text as it is if and only if neither of its ends is a blank. -/
theorem trim_eq_self_iff (text : List Char) : trim text = text ↔
    (∀ c ∈ text.head?, isBlank c = false) ∧ ∀ c ∈ text.getLast?, isBlank c = false := by
  rw [← List.head?_reverse, ← dropBlank_eq_self_iff, ← dropBlank_eq_self_iff]
  constructor
  · intro h
    -- Were a blank dropped in front, the result would be too short.
    have hfront : dropBlank text = text := by
      apply (List.dropWhile_suffix isBlank).eq_of_length_le
      calc text.length = (trim text).length := by rw [h]
        _ = (dropBlank (dropBlank text).reverse).length := List.length_reverse
        _ ≤ (dropBlank text).reverse.length := (List.dropWhile_suffix isBlank).length_le
        _ = (dropBlank text).length := List.length_reverse
    rw [trim, hfront] at h
    exact ⟨hfront, List.reverse_eq_iff.1 h⟩
  · rintro ⟨hfront, hback⟩
    rw [trim, hfront, hback, List.reverse_reverse]

theorem lowerAt_ne_nil (before : List Char) (c : Char) (after : List Char) :
    lowerAt before c after ≠ [] := by
  rw [lowerAt]
  split
  · simp
  · rcases lowerChar_cases c with h | ⟨-, h⟩ | ⟨run, -, -, h⟩ <;> simp [h]

theorem lower_eq_nil_iff (text : List Char) : lower text = [] ↔ text = [] := by
  cases text with
  | nil => simp [lower, lowerFrom]
  | cons c rest => simp [lower, lowerFrom_cons, lowerAt_ne_nil]

/-- A text that neither begins nor ends with a blank does not in lower case either. -/
theorem trim_lower {text : List Char} (h : trim text = text) : trim (lower text) = lower text := by
  obtain ⟨hfirst, hlast⟩ := (trim_eq_self_iff text).1 h
  refine (trim_eq_self_iff _).2 ⟨?_, ?_⟩
  · cases text with
    | nil => simp [lower, lowerFrom]
    | cons c rest =>
      intro d hd
      rw [lower, lowerFrom_cons, List.head?_append_of_ne_nil _ (lowerAt_ne_nil _ _ _)] at hd
      exact isBlank_of_mem_lowerAt (hfirst c rfl) (List.mem_of_mem_head? hd)
  · rcases text.eq_nil_or_concat with rfl | ⟨front, c, rfl⟩
    · simp [lower, lowerFrom]
    · intro d hd
      rw [lower, List.concat_eq_append, lowerFrom_append, lowerFrom_cons, lowerFrom, List.append_nil,
        List.getLast?_append_of_ne_nil _ (lowerAt_ne_nil _ _ _)] at hd
      exact isBlank_of_mem_lowerAt (hlast c (by simp)) (List.mem_of_mem_getLast? hd)

end Dunning.Text
