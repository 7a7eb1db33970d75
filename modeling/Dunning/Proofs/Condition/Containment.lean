import Dunning.Condition
import Dunning.Proofs.Text.Lower

/-!
# Tags that contain a text

Whether a tag contains a text is asked of their lower cases. A tag that contains the text as it is
written contains it in lower case too, unless a capital sigma ends a word in only one of them. The
tags are asked one by one, so that neither their order nor their number matters.
-/
namespace Dunning

open Text (SigmasKept lower lowerWithin)

/-- An event of a contact with the given tags. -/
def Event.tagged (event : Event) (tags : List String) : Event :=
  { event with contactTags := some tags }

namespace Condition

/-- The condition that some tag contains a literal. -/
def tagContains (literal : Json) : Condition := ⟨"tag", .contains, literal⟩

/-- The text that the tags are searched for. -/
def needle (literal : Json) : List Char := (tagContains literal).valueText.toList

variable (event : Event) (literal : Json) {tags tags' : List String}

theorem tagContains_iff (tags : List String) :
    (tagContains literal).holds (event.tagged tags) = true ↔
      ∃ tag ∈ tags, lower (needle literal) <:+: lower tag.toList := by
  simp [holds, tagContains, Event.field?, Event.tagged, anyTagContains, needle,
    Text.contains_iff_infix]

theorem tagContains_mono (h : tags ⊆ tags') :
    (tagContains literal).holds (event.tagged tags) = true →
      (tagContains literal).holds (event.tagged tags') = true := by
  rw [tagContains_iff, tagContains_iff]
  rintro ⟨tag, htag, hinfix⟩
  exact ⟨tag, h htag, hinfix⟩

theorem tagContains_congr (h : ∀ tag, tag ∈ tags ↔ tag ∈ tags') :
    (tagContains literal).holds (event.tagged tags) =
      (tagContains literal).holds (event.tagged tags') := by
  rw [Bool.eq_iff_iff]
  constructor
  · exact tagContains_mono event literal fun tag => (h tag).1
  · exact tagContains_mono event literal fun tag => (h tag).2

/-- A place where the sigmas of the literal are kept is found. -/
theorem tagContains_of_sigmasKept {tag : String} (htag : tag ∈ tags) {before after : List Char}
    (hplace : tag.toList = before ++ needle literal ++ after)
    (kept : SigmasKept before.reverse (needle literal) after) :
    (tagContains literal).holds (event.tagged tags) = true := by
  rw [tagContains_iff]
  refine ⟨tag, htag, ?_⟩
  rw [hplace]
  exact Text.lower_infix_lower kept

/-- A literal that some tag contains as it is written is found in the tags, if at some place where
the tag contains it each capital sigma of the literal ends a word just when it does in the literal;
these are the places that lower case leaves as it leaves the literal. A literal without capital
sigmas is found at every place. What is found does not depend on the order of the tags or on
repetitions, and is found among more tags too. -/
theorem verbatim_containment_kept (tags : List String) :
    (∀ tag ∈ tags, ∀ before after, tag.toList = before ++ needle literal ++ after →
      (SigmasKept before.reverse (needle literal) after ↔
        lowerWithin before.reverse (needle literal) after = lower (needle literal)) ∧
      (SigmasKept before.reverse (needle literal) after →
        (tagContains literal).holds (event.tagged tags) = true)) ∧
    ('\u03a3' ∉ needle literal → ∀ tag ∈ tags, needle literal <:+: tag.toList →
      (tagContains literal).holds (event.tagged tags) = true) ∧
    (∀ tags', (∀ tag, tag ∈ tags ↔ tag ∈ tags') →
      (tagContains literal).holds (event.tagged tags) =
        (tagContains literal).holds (event.tagged tags')) ∧
    ∀ tags', tags ⊆ tags' → (tagContains literal).holds (event.tagged tags) = true →
      (tagContains literal).holds (event.tagged tags') = true := by
  refine ⟨fun tag htag before after hplace => ?_, fun hsigma tag htag hinfix => ?_,
    fun tags' => tagContains_congr event literal, fun tags' => tagContains_mono event literal⟩
  · exact ⟨(Text.lowerWithin_eq_lower_iff _ _ _).symm,
      tagContains_of_sigmasKept event literal htag hplace⟩
  · obtain ⟨before, after, hplace⟩ := hinfix
    refine tagContains_of_sigmasKept event literal htag hplace.symm fun p q h => ?_
    exact absurd (h ▸ by simp) hsigma

/-- The sigma that ends the first word is none of the literal's, and the last one ends a word in
both. -/
theorem verbatim_containment_kept_words :
    SigmasKept "ΚΑΛΟΣ ".toList.reverse (needle (.string "ΠΕΛΑΤΗΣ")) [] ∧
    (tagContains (.string "ΠΕΛΑΤΗΣ")).holds
      ((Event.bare "org" "Payment Failed").tagged ["ΚΑΛΟΣ ΠΕΛΑΤΗΣ"]) = true := by
  have hkept : SigmasKept "ΚΑΛΟΣ ".toList.reverse (needle (.string "ΠΕΛΑΤΗΣ")) [] := by
    decide +kernel
  obtain ⟨hplace, -⟩ := verbatim_containment_kept (.bare "org" "Payment Failed")
    (.string "ΠΕΛΑΤΗΣ") ["ΚΑΛΟΣ ΠΕΛΑΤΗΣ"]
  exact ⟨hkept, (hplace "ΚΑΛΟΣ ΠΕΛΑΤΗΣ" (by simp) "ΚΑΛΟΣ ".toList [] (by decide)).2 hkept⟩

/-- On its own the literal ends with a sigma that ends a word. In the tag the word goes on, so that
its lower case has another letter there, and the literal is not found. -/
theorem final_sigma_not_found : needle (.string "ΠΡΟΣ") <:+: "ΠΡΟΣΟΧΗ".toList ∧
    (tagContains (.string "ΠΡΟΣ")).holds
      ((Event.bare "org" "Payment Failed").tagged ["ΠΡΟΣΟΧΗ"]) = false := by
  constructor
  · exact ⟨[], "ΟΧΗ".toList, by decide⟩
  · decide +kernel

end Condition

end Dunning
