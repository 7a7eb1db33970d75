import Dunning.Proofs.Walk.Told

/-!
# The points that a walk leaves behind

A walk that suspends leaves one point for each wait step that it logs, in the same order,
behind the points that were pending before. It comes to no wait that it has visited. A
walk that does not suspend leaves the pending points alone.
-/
namespace Dunning

namespace WalkState

/-- A state to which a suspending state has come by walks from its base time. -/
structure Suspended (j : Journey) (start s : WalkState) : Prop where
  suspends : s.suspends j.mode = true
  now : s.now = start.now
  /-- Unless the state was cut, there is a new point for each wait that was logged since. -/
  points : s.truncated = false → ∃ told new, s.log = start.log ++ told ∧
    s.pending = start.pending ++ new ∧ List.Forall₂ (Awaited j start.now) (waitedSteps told) new

theorem Suspended.self {j : Journey} {s : WalkState} (h : s.suspends j.mode = true) :
    Suspended j s s :=
  ⟨h, rfl, fun _ => ⟨[], [], (List.append_nil _).symm, (List.append_nil _).symm, .nil⟩⟩

theorem Suspended.walk {j : Journey} {start s : WalkState} (h : Suspended j start s)
    (agenda : List String) : Suspended j start (s.walk j agenda) := by
  obtain ⟨steps, points, hadds⟩ := exists_adds_walk j agenda s
  refine ⟨hadds.suspends.trans h.suspends, hadds.now.trans h.now, fun hopen => ?_⟩
  obtain ⟨told, new, htold, hnew, hall⟩ := h.points (hadds.going hopen)
  refine ⟨told ++ steps, new ++ points, ?_, ?_, ?_⟩
  · rw [hadds.log, htold, List.append_assoc]
  · rw [hadds.pending hopen, if_pos h.suspends, hnew, List.append_assoc]
  · rw [waitedSteps_append]
    exact List.rel_append hall (h.now ▸ hadds.told.awaited)

/-- A state that does not suspend and has kept its points, unless it was cut. -/
structure Passing (j : Journey) (had : List ResumePoint) (s : WalkState) : Prop where
  passes : s.suspends j.mode = false
  pending : s.truncated = false → s.pending = had

theorem Passing.walk {j : Journey} {had : List ResumePoint} {s : WalkState} (h : Passing j had s)
    (agenda : List String) : Passing j had (s.walk j agenda) := by
  obtain ⟨steps, points, hadds⟩ := exists_adds_walk j agenda s
  refine ⟨hadds.suspends.trans h.passes, fun hopen => ?_⟩
  rw [hadds.pending hopen, h.pending (hadds.going hopen), h.passes]
  exact List.append_nil _

theorem Passing.drain {j : Journey} {had : List ResumePoint} {s : WalkState}
    (h : Passing j had s) : Passing j had (s.drain j) :=
  drain_of_walk (fun agenda _ h => h.walk agenda) (fun _ _ _ h => ⟨h.passes, h.pending⟩) h

/-- Walks add no wait at a node that was visited before. -/
theorem carried_visited (j : Journey) (id : String) (k : Nat) :
    Carried j fun s => id ∈ s.visited ∧ entries .waited id s.log ≤ k where
  walk agenda s h := by
    obtain ⟨hvisited, hentries⟩ := h
    have hwalk := entries_walk_le j (by decide : StepAction.waited ≠ .skipped) id agenda s
    rw [if_pos hvisited] at hwalk
    exact ⟨visited_subset_walk j agenda s hvisited, hwalk.trans hentries⟩
  retime _ _ _ _ _ h := h

/-- A cut leaves nothing pending, whatever the limit. -/
theorem carried_cleared (j : Journey) : Carried j fun s => s.truncated = true → s.pending = [] where
  walk agenda s h := by
    rcases walk_cases j agenda s with ⟨-, hsame⟩ | ⟨hopen, hall⟩ | ⟨-, made, m, rest, -, hcut, -⟩
    · rwa [hsame]
    · rw [hall]
      exact fun hcut => by cases hopen.symm.trans hcut
    · rw [hcut]
      exact fun _ => rfl
  retime pending _ _ s hpending h hcut := by
    rw [h hcut] at hpending
    exact List.sublist_nil.1 hpending

/-- Going on behind points one after the other, each time from a state that was not cut. -/
inductive WentOn (j : Journey) : List ResumePoint → WalkState → WalkState → Prop
  | done (s : WalkState) : WentOn j [] s s
  | behind (p : ResumePoint) {rest : List ResumePoint} {s t : WalkState}
      (fresh : s.truncated = false) (others : WentOn j rest (s.walkDownstream j p.nodeId) t) :
      WentOn j (p :: rest) s t

/-- Points are gone on behind in order, up to a cut. -/
theorem exists_wentOn (j : Journey) (points : List ResumePoint) (s : WalkState) :
    ∃ walked left, points = walked ++ left ∧
      WentOn j walked s (points.foldl (fun s p => s.walkDownstream j p.nodeId) s) ∧
      (left ≠ [] →
        (points.foldl (fun s p => s.walkDownstream j p.nodeId) s).truncated = true) := by
  induction points generalizing s with
  | nil => exact ⟨[], [], rfl, .done s, by simp⟩
  | cons p rest ih =>
    cases hs : s.truncated with
    | true =>
      rw [foldl_walkDownstream_of_truncated j _ hs]
      exact ⟨[], p :: rest, rfl, .done s, fun _ => hs⟩
    | false =>
      obtain ⟨walked, left, hsplit, hwent, hcut⟩ := ih (s.walkDownstream j p.nodeId)
      exact ⟨p :: walked, left, by rw [hsplit]; rfl, .behind p hs hwent, hcut⟩

end WalkState

end Dunning
