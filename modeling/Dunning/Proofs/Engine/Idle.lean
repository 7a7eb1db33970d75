import Dunning.Proofs.Engine.Draft
import Dunning.Proofs.Walk.Drain
import Dunning.Proofs.Walk.Waits

/-!
# Resumptions that add nothing

A resumption whose due waits lead to no node walks nothing and logs nothing. If other
points are left, the run waits on with a log as long as before. In all other cases the
log grows or the run is closed.
-/
namespace Dunning

namespace Journey

/-- A walk along ids of no node makes no moves. -/
theorem course_of_nowhere (j : Journey) {agenda : List String}
    (nowhere : ∀ id ∈ agenda, j.graph.node? id = none) (visited : List String) :
    j.course agenda visited = [] := by
  induction agenda with
  | nil => exact course_nil j visited
  | cons id rest ih =>
    rw [course_of_missing (nowhere id List.mem_cons_self)]
    exact ih fun other h => nowhere other (List.mem_cons_of_mem id h)

/-- A walk along an id of a node logs something. -/
theorem exists_logs_of_found (j : Journey) {agenda : List String} {id : String} {node : Node}
    (hid : id ∈ agenda) (found : j.graph.node? id = some node) (visited : List String) :
    ∃ m ∈ j.course agenda visited, m.logs = true := by
  fun_induction course j agenda visited with
  | case1 visited => cases hid
  | case2 visited other rest missing ih =>
    rcases List.mem_cons.1 hid with rfl | hid
    · cases missing.symm.trans found
    · exact ih hid
  | case3 visited other rest node' found' old ih => exact ⟨_, List.mem_cons_self, rfl⟩
  | case4 visited other rest node' found' new ih =>
    obtain ⟨m, hm, hlogs⟩ := (j.entryMoves_spec other node').1
    exact ⟨m, List.mem_cons_of_mem _ (List.mem_append_left _ hm), hlogs⟩

end Journey

namespace WalkState

theorem walk_of_nowhere (j : Journey) {agenda : List String}
    (nowhere : ∀ id ∈ agenda, j.graph.node? id = none) (s : WalkState) : s.walk j agenda = s := by
  rw [walk_eq, j.course_of_nowhere nowhere, performAll_nil]

/-- Recording makes the log longer as long as the state is not truncated. -/
theorem lt_length_record {s : WalkState} (h : s.truncated = false) (step : Step) :
    s.log.length < (s.record step).log.length := by
  simp only [record, h, Bool.false_eq_true, if_false]
  split <;> simp

/-- A walk along an id of a node makes the log longer. -/
theorem lt_length_walk (j : Journey) {s : WalkState} (h : s.truncated = false)
    {agenda : List String} {id : String} {node : Node} (hid : id ∈ agenda)
    (found : j.graph.node? id = some node) :
    s.log.length < (s.walk j agenda).log.length := by
  rw [walk_eq]
  rcases performAll_cases j (j.course agenda s.visited) h with hall | ⟨made, m, rest, -, hcut, -⟩
  · obtain ⟨m, hm, hlogs⟩ := j.exists_logs_of_found hid found s.visited
    obtain ⟨step, hstep⟩ := Option.isSome_iff_exists.1 ((Move.isSome_step? j s m).trans hlogs)
    have hmem : step ∈ (j.course agenda s.visited).filterMap (Move.step? j s) :=
      List.mem_filterMap.2 ⟨m, hm, hstep⟩
    have hpos := List.length_pos_of_mem hmem
    simp only [hall, grown, List.length_append]
    omega
  · simp only [hcut, cut, grown, List.length_append, List.length_singleton]
    omega

theorem steady_longer (j : Journey) (n : Nat) : Steady j fun s => n < s.log.length where
  walk agenda s hs := by
    rcases walk_cases j agenda s with ⟨-, hsame⟩ | ⟨-, hall⟩ | ⟨-, made, m, rest, -, hcut, -⟩
    · rw [hsame]
      exact hs
    · simp only [hall, grown, List.length_append]
      omega
    · simp only [hcut, cut, grown, List.length_append]
      omega
  remark step s _ hs := by
    rcases record_cases s step with h | h | h <;> simp only [h, cut, List.length_append] <;> omega
  retime _ _ _ _ _ hs := hs

theorem foldl_walkDownstream_of_nowhere (j : Journey) {points : List ResumePoint}
    (nowhere : ∀ p ∈ points, ∀ edge ∈ j.graph.outgoing p.nodeId, j.graph.node? edge.target = none)
    (s : WalkState) : points.foldl (fun s p => s.walkDownstream j p.nodeId) s = s := by
  induction points with
  | nil => rfl
  | cons p rest ih =>
    have hp : ∀ id ∈ (j.graph.outgoing p.nodeId).map Edge.target, j.graph.node? id = none := by
      intro id hid
      obtain ⟨edge, hedge, rfl⟩ := List.mem_map.1 hid
      exact nowhere p List.mem_cons_self edge hedge
    rw [List.foldl_cons, walkDownstream, walk_of_nowhere j hp]
    exact ih fun q hq => nowhere q (List.mem_cons_of_mem p hq)

theorem lt_length_foldl_walkDownstream (j : Journey) {points : List ResumePoint} {s : WalkState}
    (h : s.truncated = false) {p : ResumePoint} (hp : p ∈ points) {edge : Edge}
    (hedge : edge ∈ j.graph.outgoing p.nodeId) {node : Node}
    (found : j.graph.node? edge.target = some node) :
    s.log.length < (points.foldl (fun s p => s.walkDownstream j p.nodeId) s).log.length := by
  induction points generalizing s with
  | nil => cases hp
  | cons q rest ih =>
    rw [List.foldl_cons]
    by_cases hq : ∀ id ∈ (j.graph.outgoing q.nodeId).map Edge.target, j.graph.node? id = none
    · rw [walkDownstream, walk_of_nowhere j hq]
      rcases List.mem_cons.1 hp with rfl | hp
      · cases (hq _ (List.mem_map_of_mem hedge)).symm.trans found
      · exact ih h hp
    · simp only [not_forall] at hq
      obtain ⟨id, hid, hsome⟩ := hq
      obtain ⟨node', found'⟩ := Option.ne_none_iff_exists'.1 hsome
      exact (steady_longer j _).foldl_walkDownstream rest (lt_length_walk j h hid found')

end WalkState

namespace Continuation

open WalkState

/-- A resumption that adds nothing to a run but parts with points: its flow is there, the due waits
lead to no node, and other points are left. -/
def Idle (c : Continuation) (flow : Option Flow) : Prop :=
  c.later ≠ [] ∧ ∃ f, flow = some f ∧
    ∀ p ∈ c.due, ∀ edge ∈ (Graph.ofFlow f).outgoing p.nodeId,
      (Graph.ofFlow f).node? edge.target = none

theorem start_truncated (c : Continuation) (e : Engine) (now clock : Instant) :
    (c.start e now clock).truncated = false := rfl

/-- Where nothing follows the due waits, a walk leaves the state as it is. -/
theorem walk_of_nowhere (c : Continuation) (e : Engine) {f : Flow} (nowhere : ∀ p ∈ c.due,
    ∀ edge ∈ (Graph.ofFlow f).outgoing p.nodeId, (Graph.ofFlow f).node? edge.target = none)
    (now clock : Instant) : c.walk e (some f) now clock = c.start e now clock := by
  have hfold := foldl_walkDownstream_of_nowhere (c.journey (some f)) nowhere (c.start e now clock)
  unfold walk
  simp only
  rw [show (⟨.ofFlow f, c.run.triggerEvent, .live⟩ : Journey) = c.journey (some f) from rfl, hfold]
  exact drain_of_deferred_nil _ rfl

/-- An idle resumption leaves the log as it is, and the points that are not due. -/
theorem draft_of_idle {c : Continuation} {flow : Option Flow} (h : c.Idle flow) (e : Engine)
    (now clock : Instant) : (c.draft e flow now clock).run = { c.run with
      status := .waiting, completedAt := none, pending := c.later } := by
  obtain ⟨hlater, f, rfl, nowhere⟩ := h
  have hstatus : (c.start e now clock).runStatus .live = .waiting := by
    have hempty : c.later.isEmpty = false := by simpa using hlater
    simp [runStatus, start, WalkState.ofLog, WalkState.start, WalkState.withNow, hempty]
  simp only [draft, c.walk_of_nowhere e nowhere, hstatus]
  rfl

/-- Any other resumption makes the log longer or closes the run. -/
theorem draft_of_not_idle {c : Continuation} {flow : Option Flow} (h : ¬c.Idle flow) (e : Engine)
    (now clock : Instant) : c.run.log.length < (c.draft e flow now clock).run.log.length ∨
      (c.draft e flow now clock).run.status ≠ .waiting := by
  cases flow with
  | none =>
    have hopen : ({ c.start e now clock with pending := [] } : WalkState).truncated = false := rfl
    exact .inl (lt_length_record hopen _)
  | some f =>
    by_cases nowhere : ∀ p ∈ c.due, ∀ edge ∈ (Graph.ofFlow f).outgoing p.nodeId,
        (Graph.ofFlow f).node? edge.target = none
    · refine .inr ?_
      have hlater : c.later = [] := by
        by_contra hlater
        exact h ⟨hlater, f, rfl, nowhere⟩
      simp only [draft, c.walk_of_nowhere e nowhere]
      simp [runStatus, start, WalkState.ofLog, WalkState.start, WalkState.withNow, hlater,
        Mode.completedStatus]
    · simp only [not_forall] at nowhere
      obtain ⟨p, hp, edge, hedge, hsome⟩ := nowhere
      obtain ⟨node, found⟩ := Option.ne_none_iff_exists'.1 hsome
      have hfold := lt_length_foldl_walkDownstream (c.journey (some f))
        (c.start_truncated e now clock) hp hedge found
      exact .inl ((steady_longer (c.journey (some f)) _).drain hfold)

/-- What has been resumed at a node stays so when the run is continued. -/
theorem draft_resumed {c : Continuation} {k : Nat} {id : String}
    (h : Resumed k id c.run.log c.later) (e : Engine) (flow : Option Flow) (now clock : Instant) :
    Resumed k id (c.draft e flow now clock).run.log (c.draft e flow now clock).run.pending :=
  (steady_resumed (c.journey flow) k id).continuation h

end Continuation

/-- A new run has a wait step for every point. -/
theorem Engine.draft_resumed (e : Engine) (flow : Flow) (event : Event) (mode : Mode)
    (source : RunSource) (runId : String) (clock : Instant) (id : String) :
    Resumed 0 id (e.draft flow event mode source runId clock).run.log
      (e.draft flow event mode source runId clock).run.pending :=
  (WalkState.steady_resumed ⟨.ofFlow flow, { event with orgId := flow.orgId }, mode⟩ 0 id).walkFlow
    (Nat.le_refl _)

end Dunning
