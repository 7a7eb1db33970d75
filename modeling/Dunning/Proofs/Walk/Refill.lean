import Dunning.Proofs.Walk.Waits
import Dunning.Proofs.Walk.Drain

/-!
# Points that are kept and points that are added

A walk leaves the points that were pending where they are and puts new ones behind them,
unless the step limit takes them all. Every new point comes with a wait step of its node,
so that it belongs to a node at which the run has not waited before.
-/
namespace Dunning

namespace WalkState

/-- Recording leaves no points. -/
theorem pending_record_of_nil {s : WalkState} (h : s.pending = []) (step : Step) :
    (s.record step).pending = [] := by
  rcases record_cases s step with hsame | hcut | hmore
  · rwa [hsame]
  · rw [hcut]
    rfl
  · rwa [hmore]

/-- A state that has gone on from a log and some points. The points are there, with new ones behind
them for which there are wait steps, or a cut has taken them. -/
def Refilled (log : List Step) (had : List ResumePoint) (s : WalkState) : Prop :=
  (s.truncated = true ∧ s.pending = []) ∨ ∃ new, s.pending = had ++ new ∧
    ∀ id, entries .waited id log + (new.map ResumePoint.nodeId).count id ≤ entries .waited id s.log

theorem Refilled.self (s : WalkState) : Refilled s.log s.pending s :=
  .inr ⟨[], (List.append_nil _).symm, fun _ => Nat.le_refl _⟩

theorem Refilled.grown {log : List Step} {had : List ResumePoint} {s : WalkState}
    (h : Refilled log had s) (hopen : s.truncated = false) (j : Journey) (made : List Move) :
    Refilled log had (s.grown j made) := by
  obtain ⟨hcut, -⟩ | ⟨new, hpending, hwaited⟩ := h
  · cases hopen.symm.trans hcut
  refine .inr ⟨new ++ if s.suspends j.mode then made.flatMap (Move.points s.now) else [], ?_, ?_⟩
  · rw [← List.append_assoc, ← hpending]
    rfl
  · intro id
    have hadded := Move.count_pending_le j s id made
    have hbefore := hwaited id
    unfold entries at *
    simp only [WalkState.grown, List.map_append, List.count_append, List.countP_append]
    omega

theorem Refilled.walk {log : List Step} {had : List ResumePoint} {s : WalkState}
    (h : Refilled log had s) (j : Journey) (agenda : List String) :
    Refilled log had (s.walk j agenda) := by
  rcases walk_cases j agenda s with ⟨-, hsame⟩ | ⟨hopen, hall⟩ | ⟨-, made, m, rest, -, hcut, -⟩
  · rw [hsame]
    exact h
  · rw [hall]
    exact h.grown hopen j _
  · rw [hcut]
    exact .inl ⟨rfl, rfl⟩

theorem Refilled.foldl_walkDownstream {log : List Step} {had : List ResumePoint} {s : WalkState}
    (h : Refilled log had s) (j : Journey) (points : List ResumePoint) :
    Refilled log had (points.foldl (fun s p => s.walkDownstream j p.nodeId) s) := by
  induction points generalizing s with
  | nil => exact h
  | cons p rest ih => exact ih (h.walk j _)

end WalkState

end Dunning
