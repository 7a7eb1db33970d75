import Dunning.Proofs.Text.Latin
import Dunning.Trigger

/-!
# Filters and letter case

Where filters are enforced, a filter and what it admits are compared without regard to the case of
the letters A to Z and of no others. A text on either side may be put in lower case without any
consequence if and only if it has no capitals but these.
-/
namespace Dunning

open Text (LatinCapitals latin trim)

/-- A text in lower case. -/
def Text.lowerCase (s : String) : String := String.ofList (lower s.toList)

/-- The texts that filters are compared by. -/
inductive FilterText where
  | tagFilter
  | languageFilter
  | tag
  | language
  deriving DecidableEq

/-- A trigger and an event, and the same with one of their texts put in lower case. -/
inductive Lowered (s : String) : FilterText → Trigger × Event → Trigger × Event → Prop where
  | tagFilter {trigger : Trigger} {event : Event} (h : trigger.filters.tag = some s) :
      Lowered s .tagFilter (trigger, event)
        ({ trigger with filters.tag := some (Text.lowerCase s) }, event)
  | languageFilter {trigger : Trigger} {event : Event} (h : trigger.filters.language = some s) :
      Lowered s .languageFilter (trigger, event)
        ({ trigger with filters.language := some (Text.lowerCase s) }, event)
  | tag {trigger : Trigger} {event : Event} (before after : List String)
      (h : event.contactTags = some (before ++ s :: after)) :
      Lowered s .tag (trigger, event)
        (trigger, { event with contactTags := some (before ++ Text.lowerCase s :: after) })
  | language {trigger : Trigger} {event : Event} (h : event.language = some s) :
      Lowered s .language (trigger, event)
        (trigger, { event with language := some (Text.lowerCase s) })

namespace TriggerFilters

/-- A filter admits all if it is blank, and else what is the same text but for the Latin case. -/
theorem admits_some_iff (filter : String) (candidates : List String) :
    admits (some filter) candidates = true ↔ trim filter.toList = [] ∨
      ∃ c ∈ candidates, latin c.toList = latin (trim filter.toList) := by
  cases h : trim filter.toList <;> simp [admits, h, Text.sameLatin_iff]

section
variable {s : String} (hlatin : LatinCapitals s.toList)
include hlatin

theorem latin_lowerCase : latin (Text.lowerCase s).toList = latin s.toList := by
  rw [Text.lowerCase, String.toList_ofList]
  exact (Text.latin_lower_iff s.toList).2 hlatin

theorem admits_lowered_filter (candidates : List String) :
    admits (some (Text.lowerCase s)) candidates = admits (some s) candidates := by
  have htrim : trim (Text.lowerCase s).toList = latin (trim s.toList) := by
    rw [Text.lowerCase, String.toList_ofList, Text.lower_of_latinCapitals hlatin, Text.trim_latin]
  rw [Bool.eq_iff_iff, admits_some_iff, admits_some_iff, htrim, Text.latin_latin]
  simp [latin]

theorem admits_lowered_candidate (filter : Option String) (before after : List String) :
    admits filter (before ++ Text.lowerCase s :: after) = admits filter (before ++ s :: after) := by
  cases filter with
  | none => rfl
  | some filter =>
    rw [Bool.eq_iff_iff, admits_some_iff, admits_some_iff]
    simp [or_and_right, exists_or, latin_lowerCase hlatin]

end

section
variable {s : String} (hends : trim s.toList = s.toList)
include hends

theorem admits_self : admits (some s) [s] = true := by
  rw [admits_some_iff, hends]
  simp

variable (hother : ¬ LatinCapitals s.toList)
include hother

theorem refuses_lowered_candidate : admits (some s) [Text.lowerCase s] = false := by
  rw [← Bool.not_eq_true, admits_some_iff, hends]
  rintro (hempty | ⟨c, hc, hsame⟩)
  · exact hother (by simp [hempty, LatinCapitals])
  · rw [List.mem_singleton.1 hc, Text.lowerCase, String.toList_ofList] at hsame
    exact hother ((Text.latin_lower_iff s.toList).1 hsame)

theorem refuses_lowered_filter : admits (some (Text.lowerCase s)) [s] = false := by
  have htrim : trim (Text.lowerCase s).toList = Text.lower s.toList := by
    rw [Text.lowerCase, String.toList_ofList, Text.trim_lower hends]
  rw [← Bool.not_eq_true, admits_some_iff, htrim]
  rintro (hempty | ⟨c, hc, hsame⟩)
  · exact hother (by simp [(Text.lower_eq_nil_iff s.toList).1 hempty, LatinCapitals])
  · rw [List.mem_singleton.1 hc] at hsame
    exact hother ((Text.latin_lower_iff s.toList).1 hsame.symm)

end

end TriggerFilters

namespace Matcher

/-- A trigger with a tag filter, and an event of its type with one tag. -/
def byTag (filter tag : String) : Trigger × Event :=
  (⟨.paymentFailed, ⟨some filter, none⟩⟩,
    { Event.ofTrigger "org" .paymentFailed with contactTags := some [tag] })

/-- A trigger with a language filter, and an event of its type with a language. -/
def byLanguage (filter language : String) : Trigger × Event :=
  (⟨.paymentFailed, ⟨none, some filter⟩⟩,
    { Event.ofTrigger "org" .paymentFailed with language := some language })

/-- A matcher that enforces filters. -/
def enforcing : Matcher := ⟨true⟩

section
variable (filter text : String)

theorem accepts_byTag : enforcing.accepts (byTag filter text).1 (byTag filter text).2 =
    TriggerFilters.admits (some filter) [text] := by
  simp [accepts, byTag, enforcing, Event.ofTrigger, Event.bare, TriggerFilters.admitsEvent,
    TriggerFilters.admits]

theorem accepts_byLanguage :
    enforcing.accepts (byLanguage filter text).1 (byLanguage filter text).2 =
      TriggerFilters.admits (some filter) [text] := by
  simp [accepts, byLanguage, enforcing, Event.ofTrigger, Event.bare, TriggerFilters.admitsEvent,
    TriggerFilters.admits]

end

theorem accepts_lowered {s : String} (hlatin : LatinCapitals s.toList) (m : Matcher)
    {place : FilterText} {x y : Trigger × Event} (h : Lowered s place x y) :
    m.accepts y.1 y.2 = m.accepts x.1 x.2 := by
  cases h with
  | tagFilter h =>
    simp only [accepts, TriggerFilters.admitsEvent, h,
      TriggerFilters.admits_lowered_filter hlatin]
  | languageFilter h =>
    simp only [accepts, TriggerFilters.admitsEvent, h,
      TriggerFilters.admits_lowered_filter hlatin]
  | tag before after h =>
    simp only [accepts, TriggerFilters.admitsEvent, h, Option.getD_some,
      TriggerFilters.admits_lowered_candidate hlatin]
  | @language trigger event h =>
    have hsame := TriggerFilters.admits_lowered_candidate hlatin trigger.filters.language [] []
    simp only [List.nil_append] at hsame
    simp only [accepts, TriggerFilters.admitsEvent, h, Option.toList_some, hsame]

/-- Wherever a text with other capitals than Latin ones is looked at, lower case can turn a match
into none. -/
theorem exists_refused_lowered {s : String} (hends : trim s.toList = s.toList)
    (hother : ¬ LatinCapitals s.toList) (place : FilterText) :
    ∃ x y, Lowered s place x y ∧ enforcing.accepts x.1 x.2 = true ∧
      enforcing.accepts y.1 y.2 = false := by
  have hadmitted := TriggerFilters.admits_self hends
  have hcandidate := TriggerFilters.refuses_lowered_candidate hends hother
  have hfilter := TriggerFilters.refuses_lowered_filter hends hother
  cases place with
  | tagFilter =>
    exact ⟨byTag s s, byTag (Text.lowerCase s) s, .tagFilter rfl,
      (accepts_byTag s s).trans hadmitted, (accepts_byTag _ s).trans hfilter⟩
  | languageFilter =>
    exact ⟨byLanguage s s, byLanguage (Text.lowerCase s) s, .languageFilter rfl,
      (accepts_byLanguage s s).trans hadmitted, (accepts_byLanguage _ s).trans hfilter⟩
  | tag =>
    exact ⟨byTag s s, byTag s (Text.lowerCase s), .tag [] [] rfl,
      (accepts_byTag s s).trans hadmitted, (accepts_byTag s _).trans hcandidate⟩
  | language =>
    exact ⟨byLanguage s s, byLanguage s (Text.lowerCase s), .language rfl,
      (accepts_byLanguage s s).trans hadmitted, (accepts_byLanguage s _).trans hcandidate⟩

/-- To put a text into lower case, be it a filter, a tag or a language, does not change which events
a trigger matches if the text has no capitals but A to Z. If it has others, each of the four can
lose a match by it; blanks at the ends of a text are left aside here, since a filter has none. -/
theorem filters_ignore_latin_case (s : String) :
    (LatinCapitals s.toList → ∀ (m : Matcher) (place : FilterText) (x y : Trigger × Event),
      Lowered s place x y → m.accepts y.1 y.2 = m.accepts x.1 x.2) ∧
    (¬ LatinCapitals s.toList → trim s.toList = s.toList → ∀ place : FilterText,
      ∃ x y, Lowered s place x y ∧ enforcing.accepts x.1 x.2 = true ∧
        enforcing.accepts y.1 y.2 = false) := by
  constructor
  · intro hlatin m place x y h
    exact accepts_lowered hlatin m h
  · intro hother hends place
    exact exists_refused_lowered hends hother place

/-- With lower case for a filter of Latin capitals a tag is still admitted, and there is a tag that
is lost with lower case for a filter that begins with an umlaut. -/
theorem filters_ignore_latin_case_words :
    LatinCapitals "Very VIP".toList ∧
    enforcing.accepts (byTag (Text.lowerCase "Very VIP") "very Vip").1
        (byTag (Text.lowerCase "Very VIP") "very Vip").2 =
      enforcing.accepts (byTag "Very VIP" "very Vip").1 (byTag "Very VIP" "very Vip").2 ∧
    ¬ LatinCapitals "Ärger".toList ∧ trim "Ärger".toList = "Ärger".toList ∧
    ∃ x y, Lowered "Ärger" .tagFilter x y ∧ enforcing.accepts x.1 x.2 = true ∧
      enforcing.accepts y.1 y.2 = false := by
  have hlatin : LatinCapitals "Very VIP".toList := Text.latinCapitals_of_low (by simp)
  have hother : ¬ LatinCapitals "Ärger".toList := by
    intro h
    exact absurd (h 'Ä' (by decide)) (by decide +kernel)
  have hends : trim "Ärger".toList = "Ärger".toList := by decide
  exact ⟨hlatin, (filters_ignore_latin_case "Very VIP").1 hlatin enforcing .tagFilter _ _
    (.tagFilter rfl), hother, hends, (filters_ignore_latin_case "Ärger").2 hother hends .tagFilter⟩

/-- A tag equals the filter, and in lower case it is not admitted by it. -/
theorem umlaut_in_lower_case_refused :
    Lowered "Ärger" .tag (byTag "Ärger" "Ärger") (byTag "Ärger" "ärger") ∧
    enforcing.accepts (byTag "Ärger" "Ärger").1 (byTag "Ärger" "Ärger").2 = true ∧
    enforcing.accepts (byTag "Ärger" "ärger").1 (byTag "Ärger" "ärger").2 = false := by
  have hlower : Text.lowerCase "Ärger" = "ärger" := by decide +kernel
  have hlowered : Lowered "Ärger" .tag (byTag "Ärger" "Ärger")
      (byTag "Ärger" (Text.lowerCase "Ärger")) := .tag [] [] rfl
  rw [hlower] at hlowered
  exact ⟨hlowered, by decide +kernel, by decide +kernel⟩

end Matcher

end Dunning
