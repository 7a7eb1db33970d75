import Dunning.Proofs.Walk.SingleEntry

/-!
# Waits behind which a run went on

A wait step that leaves a point is logged with it. So of the wait steps of a node, those
whose points are gone are behind the run for good: walks leave a new point only together
with a new step.
-/
namespace Dunning

/-- Of the waits at a node that a log tells of, at least `k` are not waited for any more. -/
def Resumed (k : Nat) (id : String) (log : List Step) (pending : List ResumePoint) : Prop :=
  (pending.map ResumePoint.nodeId).count id + k ≤ entries .waited id log

namespace Resumed

variable {k : Nat} {id : String} {log : List Step} {pending : List ResumePoint}

/-- It does no harm if points get lost. -/
theorem of_sublist (h : Resumed k id log pending) {fewer : List ResumePoint}
    (hfewer : fewer.Sublist pending) : Resumed k id log fewer :=
  Nat.le_trans (Nat.add_le_add_right ((hfewer.map _).count_le id) k) h

theorem concat (h : Resumed k id log pending) (step : Step) :
    Resumed k id (log ++ [step]) pending := by
  unfold Resumed entries at h ⊢
  rw [List.countP_append]
  omega

/-- A node that may be entered once and has been resumed is not waited for. -/
theorem not_mem (h : Resumed 1 id log pending) (once : WalkState.EnteredOnce log) :
    id ∉ pending.map ResumePoint.nodeId := by
  have honce := once.once .waited id (by decide)
  unfold Resumed at h
  exact List.count_eq_zero.1 (by omega)

/-- Parting with the points of a node that is waited for makes it one that has been resumed. -/
theorem of_parted (h : Resumed 0 id log pending) (keep : ResumePoint → Bool) {p : ResumePoint}
    (hp : p ∈ pending) (hid : p.nodeId = id) (gone : keep p = false) :
    Resumed 1 id log (pending.filter keep) := by
  have hpart : ((pending.filter keep).map ResumePoint.nodeId).count id + 1 ≤
      (pending.map ResumePoint.nodeId).count id := by
    have hperm := (List.filter_append_perm keep pending).map ResumePoint.nodeId
    have hcount := hperm.count_eq id
    have hmem : id ∈ (pending.filter fun q => !keep q).map ResumePoint.nodeId :=
      List.mem_map.2 ⟨p, List.mem_filter.2 ⟨hp, by simp [gone]⟩, hid⟩
    have hpos := List.count_pos_iff.2 hmem
    rw [List.map_append, List.count_append] at hcount
    omega
  unfold Resumed at h ⊢
  omega

end Resumed

namespace Move

/-- Points are left with wait steps. -/
theorem count_points_le (j : Journey) (s : WalkState) (id : String) (moves : List Move) :
    ((moves.flatMap (points s.now)).map ResumePoint.nodeId).count id ≤
      entries .waited id (moves.filterMap (step? j s)) := by
  induction moves with
  | nil => exact Nat.le_refl _
  | cons m rest ih =>
    have hone : ((m.points s.now).map ResumePoint.nodeId).count id ≤
        entries .waited id ((m.step? j s).toList) := by
      cases m with
      | wait other node w =>
        cases hw : w.until? s.now with
        | none => simp [points, hw]
        | some t => by_cases hid : other = id <;>
            simp [points, hw, step?, entries, Step.isOf, WalkState.nodeStep, WalkState.step, hid]
      | _ => exact Nat.zero_le _
    rw [filterMap_step?_cons, List.flatMap_cons, List.map_append, List.count_append]
    unfold entries at ih hone ⊢
    rw [List.countP_append]
    omega

/-- Points are left pending with wait steps. -/
theorem count_pending_le (j : Journey) (s : WalkState) (id : String) (moves : List Move) :
    ((if s.suspends j.mode then moves.flatMap (points s.now) else []).map
      ResumePoint.nodeId).count id ≤ entries .waited id (moves.filterMap (step? j s)) := by
  split
  · exact count_points_le j s id moves
  · exact Nat.zero_le _

end Move

namespace WalkState

/-- Walks keep what has been resumed. -/
theorem steady_resumed (j : Journey) (k : Nat) (id : String) :
    Steady j fun s => Resumed k id s.log s.pending where
  walk agenda s hs := by
    have hgrown : ∀ made, Resumed k id (s.grown j made).log (s.grown j made).pending := by
      intro made
      have hadded := Move.count_pending_le j s id made
      unfold Resumed entries at *
      simp only [grown, List.map_append, List.count_append, List.countP_append]
      omega
    rcases walk_cases j agenda s with ⟨-, hsame⟩ | ⟨-, hall⟩ | ⟨-, made, m, rest, -, hcut, -⟩
    · rw [hsame]
      exact hs
    · rw [hall]
      exact hgrown _
    · rw [hcut]
      exact ((hgrown made).concat _).of_sublist (List.nil_sublist _)
  remark step s hstep hs := by
    rcases record_cases s step with h | h | h <;> rw [h]
    · exact hs
    · exact (hs.concat _).of_sublist (List.nil_sublist _)
    · exact hs.concat step
  retime _ _ _ _ hpending hs := hs.of_sublist hpending

/-- A walk that goes past its waits leaves nothing pending. -/
theorem steady_passing (j : Journey) :
    Steady j fun s => s.suspends j.mode = false ∧ s.pending = [] where
  walk agenda s hs := by
    rcases walk_cases j agenda s with ⟨-, hsame⟩ | ⟨-, hall⟩ | ⟨-, made, m, rest, -, hcut, -⟩
    · rwa [hsame]
    · rw [hall]
      have hsuspends : (s.grown j (j.course agenda s.visited)).suspends j.mode = false := hs.1
      exact ⟨hsuspends, by simp [grown, hs.1, hs.2]⟩
    · rw [hcut]
      exact ⟨hs.1, rfl⟩
  remark step s _ hs := by
    rcases record_cases s step with h | h | h <;> rw [h]
    · exact hs
    · exact ⟨hs.1, rfl⟩
    · exact hs
  retime pending deferred now s hpending hs := by
    have hnone := hpending
    rw [hs.2] at hnone
    exact ⟨hs.1, List.sublist_nil.1 hnone⟩

end WalkState

end Dunning
