import Dunning.Proofs.Walk.Drain

/-!
# The order in which waits are continued

Which nodes a log tells of, and in which order, depends on the time only through the order
in which the run goes on behind its waits. Given this order the rest is a tour of the
graph.
-/
namespace Dunning

namespace Journey

/-- The moves of going on behind waits, one after the other. -/
def tour (j : Journey) : List String → List String → List Move
  | [], _ => []
  | id :: rest, visited =>
      j.course (j.targets id) visited ++
        tour j rest (Move.visits (j.course (j.targets id) visited) ++ visited)

theorem tour_append (j : Journey) (first second visited : List String) :
    j.tour (first ++ second) visited =
      j.tour first visited ++ j.tour second (Move.visits (j.tour first visited) ++ visited) := by
  induction first generalizing visited with
  | nil => rfl
  | cons id rest ih =>
    rw [List.cons_append, tour, tour, ih, Move.visits_append, List.append_assoc, List.append_assoc]

theorem tour_congr (g : Graph) (event : Event) (m m' : Mode) (ids : List String)
    {visited visited' : List String} (same : ∀ id, id ∈ visited ↔ id ∈ visited') :
    (⟨g, event, m⟩ : Journey).tour ids visited = (⟨g, event, m'⟩ : Journey).tour ids visited' := by
  induction ids generalizing visited visited' with
  | nil => rfl
  | cons id rest ih =>
    have hcourse : ∀ agenda, (⟨g, event, m⟩ : Journey).course agenda visited =
        (⟨g, event, m'⟩ : Journey).course agenda visited' := by
      intro agenda
      rw [course_congr _ agenda same, course_mode]
    have hrest : ∀ other : String, other ∈ Move.visits ((⟨g, event, m'⟩ : Journey).course
        ((⟨g, event, m'⟩ : Journey).targets id) visited') ++ visited ↔
        other ∈ Move.visits ((⟨g, event, m'⟩ : Journey).course
          ((⟨g, event, m'⟩ : Journey).targets id) visited') ++ visited' := by
      intro other
      rw [List.mem_append, List.mem_append, same other]
    rw [tour, tour, hcourse]
    exact congrArg _ (ih hrest)

end Journey

namespace Move

/-- The nodes of the steps that moves log. -/
def nodeIds (moves : List Move) : List String := (moves.filter logs).map nodeId

theorem nodeIds_append (ms ns : List Move) : nodeIds (ms ++ ns) = nodeIds ms ++ nodeIds ns := by
  simp [nodeIds]

theorem map_nodeId_filterMap (j : Journey) (s : WalkState) (moves : List Move) :
    (moves.filterMap (step? j s)).map Step.nodeId = nodeIds moves := by
  rw [nodeIds, ← enteredIds_filterMap j s, WalkState.enteredIds, List.filter_eq_self.2]
  intro step hstep
  obtain ⟨m, -, hm⟩ := List.mem_filterMap.1 hstep
  exact nodeKind_of_step? hm

end Move

namespace WalkState

/-- A walk that is not cut logs and visits the nodes of its course. -/
theorem nodeIds_walk (j : Journey) (agenda : List String) {s : WalkState}
    (h : (s.walk j agenda).truncated = false) :
    (s.walk j agenda).log.map Step.nodeId =
        s.log.map Step.nodeId ++ Move.nodeIds (j.course agenda s.visited) ∧
      (s.walk j agenda).visited = Move.visits (j.course agenda s.visited) ++ s.visited := by
  rw [(walk_of_open j agenda h).2]
  refine ⟨?_, rfl⟩
  simp only [grown, List.map_append, Move.map_nodeId_filterMap]

/-- Going on behind points is a tour, whatever the times are. -/
theorem nodeIds_foldl (j : Journey) (points : List ResumePoint) {s : WalkState}
    (h : (points.foldl (fun s p => s.walkDownstream j p.nodeId) s).truncated = false) :
    s.truncated = false ∧
      (points.foldl (fun s p => s.walkDownstream j p.nodeId) s).log.map Step.nodeId =
        s.log.map Step.nodeId ++ Move.nodeIds (j.tour (points.map ResumePoint.nodeId) s.visited) ∧
      (points.foldl (fun s p => s.walkDownstream j p.nodeId) s).visited =
        Move.visits (j.tour (points.map ResumePoint.nodeId) s.visited) ++ s.visited := by
  induction points generalizing s with
  | nil => exact ⟨h, (List.append_nil _).symm, rfl⟩
  | cons p rest ih =>
    obtain ⟨hopen, hlog, hvisited⟩ := ih h
    obtain ⟨hlog', hvisited'⟩ := nodeIds_walk j _ hopen
    have hleg : (s.walkDownstream j p.nodeId).visited =
        Move.visits (j.course (j.targets p.nodeId) s.visited) ++ s.visited := hvisited'
    refine ⟨(walk_of_open j _ hopen).1, ?_, ?_⟩
    · rw [List.foldl_cons, hlog, hleg, List.map_cons, Journey.tour, Move.nodeIds_append,
        ← List.append_assoc]
      exact congrArg (· ++ _) hlog'
    · rw [List.foldl_cons, hvisited, hleg, List.map_cons, Journey.tour, Move.visits_append,
        List.append_assoc]

/-- The waits behind which a drain goes on, in order. -/
def drained (j : Journey) (s : WalkState) : List String :=
  if s.truncated then []
  else match _found : takeEarliest s.deferred with
    | none => []
    | some (point, others) =>
        point.nodeId ::
          drained j
            (walkDownstream j point.nodeId { s with deferred := others, now := point.resumeAt })
termination_by s.load j.graph
decreasing_by
  refine Nat.lt_of_le_of_lt (load_walk_le j _ _) ?_
  simp only [load, unvisited]
  have := takeEarliest_length _found
  omega

/-- A drain that is not cut is the tour of the waits that it drains. -/
theorem nodeIds_drain (j : Journey) {s : WalkState} (h : (s.drain j).truncated = false) :
    s.truncated = false ∧ (s.drain j).log.map Step.nodeId =
      s.log.map Step.nodeId ++ Move.nodeIds (j.tour (drained j s) s.visited) := by
  fun_induction WalkState.drain j s with
  | case1 s ht => cases ht.symm.trans h
  | case2 s ht found =>
    have hnone : drained j s = [] := by
      rw [drained, if_neg ht]
      split
      · rfl
      · rename_i hsome
        cases found.symm.trans hsome
    rw [hnone]
    exact ⟨by simpa using ht, (List.append_nil _).symm⟩
  | case3 s ht point others found ih =>
    obtain ⟨hopen, hlog⟩ := ih h
    obtain ⟨hlog', hvisited⟩ := nodeIds_walk j _ hopen
    have hcons : drained j s = point.nodeId :: drained j
        ({ s with deferred := others, now := point.resumeAt }.walkDownstream j point.nodeId) := by
      rw [drained, if_neg ht]
      split
      · rename_i hnone
        cases hnone.symm.trans found
      · rename_i point' others' found'
        obtain ⟨rfl, rfl⟩ := Prod.mk.inj (Option.some.inj (found'.symm.trans found))
        rfl
    have hleg : ({ s with deferred := others, now := point.resumeAt }.walkDownstream j
        point.nodeId).visited =
        Move.visits (j.course (j.targets point.nodeId) s.visited) ++ s.visited := hvisited
    refine ⟨by simpa using ht, ?_⟩
    rw [hlog, hcons, hleg, Journey.tour, Move.nodeIds_append, ← List.append_assoc]
    exact congrArg (· ++ _) hlog'

end WalkState

end Dunning
