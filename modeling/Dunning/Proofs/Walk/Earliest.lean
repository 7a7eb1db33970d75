import Dunning.Proofs.Time.Order
import Dunning.Walk.Traverse
import Mathlib.Data.List.Sort

/-!
# The earliest point

Deferred waits are continued one at a time, always the earliest and the first of equals.
Due waits are sorted at once by a stable sort. Both come to the same order.
-/
namespace Dunning

namespace ResumePoint

/-- Whether a point is not later than another. -/
def Before (p q : ResumePoint) : Prop := p.resumeAt.le q.resumeAt = true

instance : DecidableRel Before := fun p q =>
  inferInstanceAs (Decidable (p.resumeAt.le q.resumeAt = true))

/-- Points in the order in which they are due. -/
def inOrder (points : List ResumePoint) : List ResumePoint :=
  points.mergeSort fun p q => p.resumeAt.le q.resumeAt

theorem trans_le (a b c : ResumePoint) (hab : a.resumeAt.le b.resumeAt = true)
    (hbc : b.resumeAt.le c.resumeAt = true) : a.resumeAt.le c.resumeAt = true :=
  Instant.le_trans hab hbc

theorem total_le (a b : ResumePoint) :
    (a.resumeAt.le b.resumeAt || b.resumeAt.le a.resumeAt) = true := by
  simpa using Instant.le_total a.resumeAt b.resumeAt

/-- A stable sort is an insertion sort. -/
theorem inOrder_cons (p : ResumePoint) (points : List ResumePoint) :
    inOrder (p :: points) = (inOrder points).orderedInsert Before p := by
  obtain ⟨first, last, hcons, hpoints, hfirst⟩ := List.mergeSort_cons trans_le total_le p points
  have hsorted := List.pairwise_mergeSort trans_le total_le (p :: points)
  rw [hcons] at hsorted
  have hlast : last.orderedInsert Before p = p :: last := by
    cases last with
    | nil => rfl
    | cons q rest =>
      have hq : Before p q :=
        (List.pairwise_cons.1 (List.pairwise_append.1 hsorted).2.1).1 q List.mem_cons_self
      rw [List.orderedInsert_cons, if_pos hq]
  unfold inOrder
  rw [hcons, hpoints]
  clear hcons hpoints hsorted
  induction first with
  | nil => exact hlast.symm
  | cons a rest ih =>
    have ha : ¬Before p a := by simpa [Before] using hfirst a List.mem_cons_self
    rw [List.cons_append, List.cons_append, List.orderedInsert_cons, if_neg ha,
      ih fun b hb => hfirst b (List.mem_cons_of_mem a hb)]

end ResumePoint

namespace WalkState

open ResumePoint

/-- A point with what stands before and behind it in a list where it is the earliest, the first one
of equals. -/
structure Earliest (p : ResumePoint) (before behind : List ResumePoint) : Prop where
  before : ∀ q ∈ before, ¬q.Before p
  behind : ∀ q ∈ behind, p.Before q

theorem takeEarliest_eq_none {points : List ResumePoint} (h : takeEarliest points = none) :
    points = [] := by
  cases points with
  | nil => rfl
  | cons p rest =>
    simp only [takeEarliest] at h
    split at h
    · cases h
    · split at h <;> cases h

theorem takeEarliest_eq_some {points others : List ResumePoint} {p : ResumePoint}
    (h : takeEarliest points = some (p, others)) : ∃ before behind, points = before ++ p :: behind ∧
      others = before ++ behind ∧ Earliest p before behind := by
  induction points generalizing p others with
  | nil => cases h
  | cons a rest ih =>
    simp only [takeEarliest] at h
    split at h
    · rename_i hnone
      obtain ⟨rfl, rfl⟩ := Prod.mk.inj (Option.some.inj h)
      exact ⟨[], [], by rw [takeEarliest_eq_none hnone]; rfl, rfl, by simp, by simp⟩
    · rename_i q left hq
      obtain ⟨before, behind, rfl, rfl, hbefore, hbehind⟩ := ih hq
      split at h
      · rename_i ha
        obtain ⟨rfl, rfl⟩ := Prod.mk.inj (Option.some.inj h)
        refine ⟨[], _, rfl, rfl, by simp, fun r hr => ?_⟩
        rcases List.mem_append.1 hr with hr | hr
        · exact Instant.le_trans ha (Instant.le_of_not_le (hbefore r hr))
        · rcases List.mem_cons.1 hr with rfl | hr
          · exact ha
          · exact Instant.le_trans ha (hbehind r hr)
      · rename_i ha
        obtain ⟨rfl, rfl⟩ := Prod.mk.inj (Option.some.inj h)
        refine ⟨a :: before, behind, rfl, rfl, fun r hr => ?_, hbehind⟩
        rcases List.mem_cons.1 hr with rfl | hr
        · exact ha
        · exact hbefore r hr

/-- Where there are points, one is the earliest. -/
theorem exists_earliest_point {points : List ResumePoint} (h : points ≠ []) :
    ∃ p ∈ points, ∀ q ∈ points, p.resumeAt.le q.resumeAt = true := by
  cases hfound : takeEarliest points with
  | none => exact absurd (takeEarliest_eq_none hfound) h
  | some found =>
    obtain ⟨before, behind, rfl, -, hbefore, hbehind⟩ := takeEarliest_eq_some hfound
    refine ⟨found.1, List.mem_append_right _ List.mem_cons_self, fun q hq => ?_⟩
    rcases List.mem_append.1 hq with hq | hq
    · exact Instant.le_of_not_le (hbefore q hq)
    · rcases List.mem_cons.1 hq with rfl | hq
      · exact Instant.le_refl _
      · exact hbehind q hq

theorem takeEarliest_of_earliest {p : ResumePoint} {before behind : List ResumePoint}
    (h : Earliest p before behind) :
    takeEarliest (before ++ p :: behind) = some (p, before ++ behind) := by
  obtain ⟨hbefore, hbehind⟩ := h
  induction before with
  | nil =>
    simp only [List.nil_append, takeEarliest]
    split
    · rename_i hnone
      rw [takeEarliest_eq_none hnone]
    · rename_i q left hq
      obtain ⟨before', behind', rfl, -, -⟩ := takeEarliest_eq_some hq
      have hle : p.resumeAt.le q.resumeAt = true := hbehind q (by simp)
      rw [if_pos hle]
  | cons a rest ih =>
    have ha : ¬a.resumeAt.le p.resumeAt = true := hbefore a List.mem_cons_self
    rw [List.cons_append, takeEarliest, ih fun q hq => hbefore q (List.mem_cons_of_mem a hq)]
    simp only [if_neg ha, List.cons_append]

/-- The earliest point comes first in order. -/
theorem inOrder_of_earliest {p : ResumePoint} {before behind : List ResumePoint}
    (h : Earliest p before behind) :
    inOrder (before ++ p :: behind) = p :: inOrder (before ++ behind) := by
  obtain ⟨hbefore, hbehind⟩ := h
  induction before with
  | nil =>
    rw [List.nil_append, List.nil_append, inOrder_cons]
    cases hsorted : inOrder behind with
    | nil => rfl
    | cons q rest =>
      have hq : q ∈ behind := List.mem_mergeSort.1 (hsorted ▸ List.mem_cons_self)
      rw [List.orderedInsert_cons, if_pos (hbehind q hq)]
  | cons a rest ih =>
    rw [List.cons_append, List.cons_append, inOrder_cons, inOrder_cons,
      ih fun q hq => hbefore q (List.mem_cons_of_mem a hq), List.orderedInsert_cons,
      if_neg (hbefore a List.mem_cons_self)]

end WalkState

end Dunning
