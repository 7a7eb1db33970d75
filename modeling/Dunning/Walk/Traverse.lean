import Dunning.Walk.Enter

/-!
# Walking the graph

The walk keeps an agenda of node ids. It takes the first one, enters the node
if it is there and new, and puts the ids that follow it in front of the rest,
so that the graph is walked depth first. Every node is entered once, which
bounds the walk. Deferred waits are continued afterwards, the earliest first,
as if each had been resumed at its time.
-/
namespace Dunning

namespace WalkState

/-- How many nodes of the graph have not been visited. -/
def unvisited (g : Graph) (s : WalkState) : Nat := g.nodes.countP fun n => n.1 ∉ s.visited

theorem countP_visit_le (nodes : List (String × Node)) (visited : List String) (id : String) :
    (nodes.countP fun n => n.1 ∉ id :: visited) ≤ nodes.countP fun n => n.1 ∉ visited :=
  List.countP_mono_left fun n _ h => by simp_all

/-- Visiting a new node of the graph leaves fewer to visit. -/
theorem countP_visit_lt (nodes : List (String × Node)) (visited : List String) (id : String)
    (node : Node) (found : nodes.lookup id = some node) (new : id ∉ visited) :
    (nodes.countP fun n => n.1 ∉ id :: visited) < nodes.countP fun n => n.1 ∉ visited := by
  induction nodes with
  | nil => simp at found
  | cons p rest ih =>
    rw [List.countP_cons, List.countP_cons]
    have hrest := countP_visit_le rest visited id
    by_cases h : id = p.1
    · have hin : decide (p.1 ∉ id :: visited) = false := by simp [h]
      have hout : decide (p.1 ∉ visited) = true := by simpa [← h] using new
      simp only [hin, hout, if_true, Bool.false_eq_true, if_false]
      omega
    · have hb : (id == p.1) = false := by simpa using h
      have hsame : decide (p.1 ∉ id :: visited) = decide (p.1 ∉ visited) := by
        simp [Ne.symm h]
      obtain ⟨k, v⟩ := p
      rw [List.lookup_cons, hb] at found
      have := ih found
      rw [hsame]
      omega

/-- Walk the ids of an agenda and everything that follows from them. Ids of no node are passed
over, and a node that was visited before is only noted. -/
def walk (j : Journey) (agenda : List String) (s : WalkState) : WalkState :=
  match agenda with
  | [] => s
  | id :: rest =>
      if s.truncated then s
      else match _found : j.graph.node? id with
        | none => walk j rest s
        | some node =>
            if _new : id ∈ s.visited then
              walk j rest (s.record (s.nodeStep id node .skipped
                "Already visited in this run; path stopped"))
            else
              walk j (((s.visit id).enter j id node).2 ++ rest) ((s.visit id).enter j id node).1
termination_by (s.unvisited j.graph, agenda.length)
decreasing_by
  · exact Prod.Lex.right _ (Nat.lt_succ_self _)
  · simp only [unvisited, record_visited]
    exact Prod.Lex.right _ (Nat.lt_succ_self _)
  · refine Prod.Lex.left _ _ ?_
    simp only [unvisited, enter_visited, visit_visited]
    exact countP_visit_lt _ _ _ node _found _new

/-- Walk what follows a node. -/
def walkDownstream (j : Journey) (id : String) (s : WalkState) : WalkState :=
  s.walk j ((j.graph.outgoing id).map Edge.target)

/-- What bounds the continuation of deferred waits: those that are there, and the nodes from which
more may come. -/
def load (g : Graph) (s : WalkState) : Nat := s.unvisited g + s.deferred.length

theorem load_walk_le (j : Journey) (agenda : List String) (s : WalkState) :
    (s.walk j agenda).load j.graph ≤ s.load j.graph := by
  fun_induction walk j agenda s with
  | case1 s => exact Nat.le_refl _
  | case2 s id rest h => exact Nat.le_refl _
  | case3 s id rest h found ih => exact ih
  | case4 s id rest h node found new ih =>
    refine Nat.le_trans ih ?_
    simp only [load, unvisited, record_visited]
    exact Nat.add_le_add_left (record_deferred_le _ _) _
  | case5 s id rest h node found new ih =>
    refine Nat.le_trans ih ?_
    simp only [load, unvisited, enter_visited, visit_visited]
    have hv := countP_visit_lt _ _ _ node found new
    have hd := enter_deferred_le j id node (s.visit id)
    simp only [visit_deferred] at hd
    omega

/-- The earliest point of a list, the first one of equals, and the others in order. -/
def takeEarliest : List ResumePoint → Option (ResumePoint × List ResumePoint)
  | [] => none
  | p :: rest =>
      match takeEarliest rest with
      | none => some (p, [])
      | some (q, others) => if p.resumeAt.le q.resumeAt then some (p, rest) else some (q, p :: others)

theorem takeEarliest_length {points : List ResumePoint} {p : ResumePoint} {others : List ResumePoint}
    (h : takeEarliest points = some (p, others)) : points.length = others.length + 1 := by
  induction points generalizing p others with
  | nil => simp [takeEarliest] at h
  | cons a rest ih =>
    simp only [takeEarliest] at h
    split at h
    · rename_i hn
      simp only [Option.some.injEq, Prod.mk.injEq] at h
      obtain ⟨-, rfl⟩ := h
      cases rest with
      | nil => rfl
      | cons b rest =>
        simp only [takeEarliest] at hn
        split at hn
        · simp at hn
        · split at hn <;> simp at hn
    · rename_i q left hq
      split at h
      · simp only [Option.some.injEq, Prod.mk.injEq] at h
        obtain ⟨-, rfl⟩ := h
        rfl
      · simp only [Option.some.injEq, Prod.mk.injEq] at h
        obtain ⟨-, rfl⟩ := h
        simp [ih hq]

/-- Continue behind every deferred wait, the earliest first, counting from its time. Waits met on
the way are deferred in turn. -/
def drain (j : Journey) (s : WalkState) : WalkState :=
  if s.truncated then s
  else match _found : takeEarliest s.deferred with
    | none => s
    | some (point, others) =>
        drain j (walkDownstream j point.nodeId { s with deferred := others, now := point.resumeAt })
termination_by s.load j.graph
decreasing_by
  refine Nat.lt_of_le_of_lt (load_walk_le j _ _) ?_
  simp only [load, unvisited]
  have := takeEarliest_length _found
  omega

end WalkState

end Dunning
