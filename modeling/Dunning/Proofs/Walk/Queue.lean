import Dunning.Proofs.Walk.Earliest
import Mathlib.Data.List.Perm.Basic

/-!
# Points as a stable queue

Points are put into a list in some order and taken from it with the earliest first. As long as
nothing is put in that is due before the point taken last, what has been taken is in order, and
points that are due at the same time are taken as they were put in.
-/
namespace Dunning

/-- The points of a list that are due exactly at a time. -/
def pointsAt (time : Instant) (points : List ResumePoint) : List ResumePoint :=
  points.filter fun p => p.resumeAt = time

@[simp] theorem pointsAt_append (time : Instant) (points more : List ResumePoint) :
    pointsAt time (points ++ more) = pointsAt time points ++ pointsAt time more :=
  List.filter_append ..

theorem pointsAt_cons (time : Instant) (p : ResumePoint) (points : List ResumePoint) :
    pointsAt time (p :: points) =
      if p.resumeAt = time then p :: pointsAt time points else pointsAt time points := by
  simp [pointsAt, List.filter_cons]

/-- Lists that have the same points at each time have the same points. -/
theorem perm_of_pointsAt {points others : List ResumePoint}
    (h : ∀ time, pointsAt time points = pointsAt time others) : points.Perm others := by
  rw [List.perm_iff_count]
  intro p
  have hcount : ∀ list : List ResumePoint, list.count p = (pointsAt p.resumeAt list).count p := by
    intro list
    rw [pointsAt, List.count_filter (by simp)]
  rw [hcount points, hcount others, h]

namespace WalkState

open ResumePoint

/-- A queue with the points taken from it, those that are in it and all that were put in, in this
order each. -/
structure Queued (taken queue put : List ResumePoint) : Prop where
  inOrder : taken.Pairwise Before
  ahead : ∀ p ∈ taken, ∀ q ∈ queue, p.Before q
  stable : ∀ time, pointsAt time (taken ++ queue) = pointsAt time put

theorem Queued.start (queue : List ResumePoint) : Queued [] queue queue :=
  ⟨.nil, by simp, fun _ => rfl⟩

namespace Queued

variable {taken queue put others more : List ResumePoint} {p : ResumePoint}

/-- What was taken is a first part of what was put in, time by time. -/
theorem prefix_pointsAt (h : Queued taken queue put) (time : Instant) :
    pointsAt time taken <+: pointsAt time put := by
  rw [← h.stable time, pointsAt_append]
  exact List.prefix_append ..

/-- Behind the last point, everything that was put in has been taken. -/
theorem perm (h : Queued taken [] put) : taken.Perm put :=
  perm_of_pointsAt fun time => by rw [← h.stable time, List.append_nil]

/-- Of the points of one time, none stands in front of the earliest. -/
theorem pointsAt_of_earliest {before behind : List ResumePoint} (h : Earliest p before behind)
    (time : Instant) :
    pointsAt time (before ++ p :: behind) = pointsAt time (p :: (before ++ behind)) := by
  rw [pointsAt_append, pointsAt_cons, pointsAt_cons, pointsAt_append]
  split
  · rename_i htime
    have hnone : pointsAt time before = [] := by
      refine List.filter_eq_nil_iff.2 fun q hq => ?_
      have hlate := h.before q hq
      rintro hsame
      rw [Before, of_decide_eq_true hsame, htime] at hlate
      exact hlate (Instant.le_refl time)
    rw [hnone, List.nil_append, List.nil_append]
  · rfl

/-- One point is taken, and others are put in that are due no earlier. -/
theorem take (h : Queued taken queue put) (found : takeEarliest queue = some (p, others))
    (later : ∀ q ∈ more, p.Before q) : Queued (taken ++ [p]) (others ++ more) (put ++ more) := by
  obtain ⟨before, behind, rfl, rfl, hearliest⟩ := takeEarliest_eq_some found
  have hfirst : ∀ q ∈ before ++ behind ++ more, p.Before q := by
    intro q hq
    simp only [List.mem_append] at hq
    obtain (hq | hq) | hq := hq
    · exact Instant.le_of_not_le (hearliest.before q hq)
    · exact hearliest.behind q hq
    · exact later q hq
  have htaken : ∀ a ∈ taken, a.Before p := fun a ha => h.ahead a ha p (by simp)
  constructor
  · rw [List.pairwise_append]
    exact ⟨h.inOrder, List.pairwise_singleton .., by simpa using htaken⟩
  · intro a ha q hq
    obtain ha | ha := List.mem_append.1 ha
    · exact trans_le a p q (htaken a ha) (hfirst q hq)
    · rw [List.mem_singleton.1 ha]
      exact hfirst q hq
  · intro time
    have hearlier := h.stable time
    rw [pointsAt_append, pointsAt_of_earliest hearliest] at hearlier
    have hsplit : taken ++ [p] ++ (before ++ behind ++ more) =
        taken ++ p :: (before ++ behind) ++ more := by simp
    rw [hsplit, pointsAt_append, pointsAt_append, hearlier, pointsAt_append]

end Queued

end WalkState

end Dunning
