import Dunning.Proofs.Walk.Forks

/-!
# Coming to a node

Whenever a walk comes to a node it logs a step there at once, whether it enters the node or turns
back. If there is no room for that step, the limit ends the log with a step at the node.
-/
namespace Dunning

namespace WalkState

/-- A state that has come to a node from another by steps that are all at the node. Unless the state
was cut one of them belongs to it, and if it was cut they end with the step of the limit. -/
structure ComesTo (id : String) (s t : WalkState) (steps : List Step) : Prop where
  log : t.log = s.log ++ steps
  nodeIds : ∀ step ∈ steps, step.nodeId = id
  entered : t.truncated = false → id ∈ enteredIds steps
  cut : t.truncated = true → ∃ told, steps = told ++ [s.limitStep id]
  visited : ∀ other, other ∈ t.visited ↔ other = id ∨ other ∈ s.visited
  maxSteps : t.maxSteps = s.maxSteps

theorem ComesTo.mem_nodeIds {id : String} {s t : WalkState} {steps : List Step}
    (h : ComesTo id s t steps) : id ∈ steps.map Step.nodeId := by
  cases hcut : t.truncated with
  | false => exact (List.filter_sublist.map Step.nodeId).subset (h.entered hcut)
  | true =>
    obtain ⟨told, rfl⟩ := h.cut hcut
    rw [List.map_append]
    exact List.mem_append_right _ (List.mem_singleton.2 rfl)

variable {s : WalkState} {id : String} (j : Journey) (node : Node)

/-- A walk turns back at a node that was visited before. -/
theorem exists_comesTo_revisit (hopen : s.truncated = false) (old : id ∈ s.visited)
    (detail : String) :
    ∃ steps, ComesTo id s (s.record (s.nodeStep id node .skipped detail)) steps := by
  have hvisited : ∀ other, other ∈ s.visited ↔ other = id ∨ other ∈ s.visited :=
    fun other => (or_iff_right_of_imp fun hid => hid ▸ old).symm
  obtain hroom | hfull := Nat.lt_or_ge s.log.length s.maxSteps
  · rw [record_of_room hopen hroom]
    refine ⟨[s.nodeStep id node .skipped detail], rfl, ?_, fun _ => ?_, fun hcut => ?_, hvisited,
      rfl⟩
    · exact fun step hstep => by rw [List.mem_singleton.1 hstep]; rfl
    · exact List.mem_singleton.2 rfl
    · cases hopen.symm.trans hcut
  · rw [record_of_full hopen hfull]
    refine ⟨[s.limitStep id], rfl, ?_, fun hopen => ?_, fun _ => ⟨[], rfl⟩, hvisited, rfl⟩
    · exact fun step hstep => by rw [List.mem_singleton.1 hstep]; rfl
    · cases hopen

/-- A walk enters a node that is new. -/
theorem exists_comesTo_enter (hopen : s.truncated = false) :
    ∃ steps, ComesTo id s ((s.visit id).enter j id node).1 steps := by
  obtain ⟨⟨first, hfirst, hlogs⟩, hids⟩ := j.entryMoves_spec id node
  have hnodes : ∀ made ⊆ j.entryMoves id node,
      ∀ step ∈ made.filterMap (Move.step? j (s.visit id)), step.nodeId = id := by
    intro made hpart step hstep
    obtain ⟨m, hm, hlogged⟩ := List.mem_filterMap.1 hstep
    rw [Move.nodeId_of_step? hlogged, hids m (hpart hm)]
  have hvisited : ∀ other, other ∈ ((s.visit id).enter j id node).1.visited ↔
      other = id ∨ other ∈ s.visited := by
    intro other
    rw [enter_visited, visit_visited, List.mem_cons]
  rw [enter_eq] at hvisited ⊢
  obtain hall | ⟨made, m, rest, hsplit, hcut, -⟩ :=
    performAll_cases j (j.entryMoves id node) (s := s.visit id) hopen
  · rw [hall] at hvisited ⊢
    refine ⟨_, rfl, hnodes _ (List.Subset.refl _), fun _ => ?_, fun hcut => ?_, hvisited, rfl⟩
    · rw [Move.enteredIds_filterMap]
      exact List.mem_map.2 ⟨first, List.mem_filter.2 ⟨hfirst, hlogs⟩, hids first hfirst⟩
    · cases hopen.symm.trans hcut
  · have hm : m.nodeId = id := hids m (hsplit ▸ by simp)
    rw [hcut, hm] at hvisited ⊢
    refine ⟨_, List.append_assoc .., fun step hstep => ?_, fun hopen => ?_, fun _ => ⟨_, rfl⟩,
      hvisited, rfl⟩
    · obtain hstep | hstep := List.mem_append.1 hstep
      · exact hnodes made (hsplit ▸ List.subset_append_left ..) step hstep
      · rw [List.mem_singleton.1 hstep]
        rfl
    · cases hopen

end WalkState

end Dunning
