import Dunning.Walk.Traverse
import Mathlib.Tactic.Lemma

/-!
# The course of a walk

Which nodes a walk enters, and in which order, is settled by the graph, the event
and the nodes visited before. Neither the mode, nor the clock, nor the step limit
has a say in it, since a walk never goes on behind a wait by itself. The course is
this order as a list of moves, and a walk performs its course until the step limit
stops it.
-/
namespace Dunning

/-- One thing that a walk does. -/
inductive Move where
  /-- From here on the node counts as visited. -/
  | visit (id : String)
  /-- Log a step that is the same in both modes. -/
  | note (id : String) (node : Node) (action : StepAction) (detail : String)
  | enroll (id : String) (node : Node) (enrollment : Enrollment)
  | wait (id : String) (node : Node) (wait : Wait)

namespace Move

/-- The node at which a move is made. -/
def nodeId : Move → String
  | visit id => id
  | note id _ _ _ => id
  | enroll id _ _ => id
  | wait id _ _ => id

/-- Whether a move logs a step. -/
def logs : Move → Bool
  | visit _ => false
  | _ => true

/-- The id that a move visits. -/
def visited? : Move → Option String
  | visit id => some id
  | _ => none

/-- The ids that moves visit, the latest first. -/
def visits (moves : List Move) : List String := (moves.filterMap visited?).reverse

@[simp] theorem visits_cons_visit (id : String) (moves : List Move) :
    visits (.visit id :: moves) = visits moves ++ [id] := by simp [visits, visited?]

theorem visits_append (ms ns : List Move) : visits (ms ++ ns) = visits ns ++ visits ms := by
  simp [visits]

/-- A move at a node of a graph that does what the body of the node says. -/
def Fits (g : Graph) : Move → Prop
  | visit id => ∃ node, g.node? id = some node
  | note id node action _ => g.node? id = some node ∧
      (action = .evaluated ∨ action = .matched ∨ action = .skipped)
  | enroll id node e => g.node? id = some node ∧ node.body = .enroll e
  | wait id node w => g.node? id = some node ∧ node.body = .wait w

end Move

namespace Journey

/-- The moves that try the branches of a switch. -/
def branchMoves (j : Journey) (id : String) (node : Node) : List Branch → List Move
  | [] => []
  | b :: rest =>
      let reason := b.condition.describe j.event
      if b.condition.holds j.event then
        [.note id node .matched ("Branch '" ++ b.name ++ "' matched: " ++ reason)]
      else
        .note id node .skipped ("Branch '" ++ b.name ++ "' did not match: " ++ reason) ::
          branchMoves j id node rest

/-- The way that the first matching branch decides. -/
def branchTargets (j : Journey) (id : String) : List Branch → List String
  | [] => []
  | b :: rest =>
      if b.condition.holds j.event then (j.graph.branchEdge id b.id).toList.map Edge.target
      else branchTargets j id rest

/-- The moves of entering a node. -/
def entryMoves (j : Journey) (id : String) (node : Node) : List Move :=
  match node.body with
  | .trigger t => [.note id node .evaluated ("Trigger matched: " ++ t.type.name)]
  | .switch branches =>
      .note id node .evaluated ("Evaluating " ++ toString branches.length ++ " branch(es)") ::
        j.branchMoves id node branches
  | .enroll e => [.enroll id node e]
  | .wait w => [.wait id node w]

/-- The ids that follow an entered node. -/
def onward (j : Journey) (id : String) (node : Node) : List String :=
  match node.body with
  | .switch branches => j.branchTargets id branches
  | .wait _ => []
  | _ => (j.graph.outgoing id).map Edge.target

/-- The move at a node that was visited before. -/
def revisit (id : String) (node : Node) : Move :=
  .note id node .skipped "Already visited in this run; path stopped"

/-- The moves of a walk along an agenda. -/
def course (j : Journey) (agenda visited : List String) : List Move :=
  match agenda with
  | [] => []
  | id :: rest =>
      match _found : j.graph.node? id with
      | none => course j rest visited
      | some node =>
          if _new : id ∈ visited then revisit id node :: course j rest visited
          else .visit id :: (j.entryMoves id node ++
            course j (j.onward id node ++ rest) (id :: visited))
termination_by (j.graph.nodes.countP fun n => n.1 ∉ visited, agenda.length)
decreasing_by
  · exact Prod.Lex.right _ (Nat.lt_succ_self _)
  · exact Prod.Lex.right _ (Nat.lt_succ_self _)
  · exact Prod.Lex.left _ _ (WalkState.countP_visit_lt _ _ _ node _found _new)

@[simp] theorem course_nil (j : Journey) (visited : List String) : j.course [] visited = [] := by
  rw [course]

/-- An id of no node is passed over. -/
theorem course_of_missing {j : Journey} {id : String} (missing : j.graph.node? id = none)
    (rest visited : List String) : j.course (id :: rest) visited = j.course rest visited := by
  rw [course]
  split
  · rfl
  · simp_all

theorem course_of_visited {j : Journey} {id : String} {node : Node}
    (found : j.graph.node? id = some node) (rest : List String) {visited : List String}
    (old : id ∈ visited) :
    j.course (id :: rest) visited = revisit id node :: j.course rest visited := by
  rw [course]
  split
  · simp_all
  · rename_i node' found'
    obtain rfl : node = node' := Option.some.inj (found.symm.trans found')
    rw [dif_pos old]

theorem course_of_new {j : Journey} {id : String} {node : Node}
    (found : j.graph.node? id = some node) (rest : List String) {visited : List String}
    (new : id ∉ visited) : j.course (id :: rest) visited =
      .visit id ::
        (j.entryMoves id node ++ j.course (j.onward id node ++ rest) (id :: visited)) := by
  rw [course]
  split
  · simp_all
  · rename_i node' found'
    obtain rfl : node = node' := Option.some.inj (found.symm.trans found')
    rw [dif_neg new]

/-- Entering a node visits nothing else. -/
theorem visits_entryMoves (j : Journey) (id : String) (node : Node) :
    Move.visits (j.entryMoves id node) = [] := by
  have hbranches : ∀ branches, (j.branchMoves id node branches).filterMap Move.visited? = [] := by
    intro branches
    induction branches with
    | nil => rfl
    | cons b rest ih =>
      simp only [branchMoves]
      split
      · rfl
      · simpa [Move.visited?] using ih
  cases h : node.body with
  | trigger t => simp [entryMoves, Move.visits, Move.visited?, h]
  | «switch» branches =>
    simp only [entryMoves, h, Move.visits]
    rw [List.filterMap_cons_none rfl, hbranches, List.reverse_nil]
  | enroll e => simp [entryMoves, Move.visits, Move.visited?, h]
  | wait w => simp [entryMoves, Move.visits, Move.visited?, h]

/-- The course along two agendas: the second one starts from all that the first one visits. -/
theorem course_append (j : Journey) (first second visited : List String) :
    j.course (first ++ second) visited = j.course first visited ++
      j.course second (Move.visits (j.course first visited) ++ visited) := by
  fun_induction course j first visited with
  | case1 visited => simp [Move.visits]
  | case2 visited id rest missing ih => rw [List.cons_append, course_of_missing missing, ih]
  | case3 visited id rest node found old ih =>
    rw [List.cons_append, course_of_visited found _ old, ih, List.cons_append]
    rfl
  | case4 visited id rest node found new ih =>
    rw [List.cons_append, course_of_new found _ new, ← List.append_assoc (j.onward id node), ih]
    have hvisits : Move.visits (.visit id :: (j.entryMoves id node ++
        j.course (j.onward id node ++ rest) (id :: visited))) ++ visited =
        Move.visits (j.course (j.onward id node ++ rest) (id :: visited)) ++ (id :: visited) := by
      rw [Move.visits_cons_visit, Move.visits_append, visits_entryMoves, List.append_nil,
        List.append_assoc, List.singleton_append]
    rw [hvisits, List.cons_append, List.append_assoc]

/-- Only which nodes have been visited matters, not in which order. -/
theorem course_congr (j : Journey) (agenda : List String) {visited visited' : List String}
    (same : ∀ id, id ∈ visited ↔ id ∈ visited') :
    j.course agenda visited = j.course agenda visited' := by
  fun_induction course j agenda visited generalizing visited' with
  | case1 visited => rw [course_nil]
  | case2 visited id rest missing ih => rw [course_of_missing missing, ih same]
  | case3 visited id rest node found old ih =>
    rw [course_of_visited found _ ((same id).1 old), ih same]
  | case4 visited id rest node found new ih =>
    have hnew : id ∉ visited' := fun h => new ((same id).2 h)
    have hsame : ∀ other, other ∈ id :: visited ↔ other ∈ id :: visited' := by
      intro other
      rw [List.mem_cons, List.mem_cons, same other]
    rw [course_of_new found _ hnew, ih hsame]

/-- Entering a node of a graph makes moves that fit it. -/
theorem fits_of_mem_entryMoves {j : Journey} {id : String} {node : Node}
    (found : j.graph.node? id = some node) : ∀ m ∈ j.entryMoves id node, m.Fits j.graph := by
  have hbranches : ∀ branches, ∀ m ∈ j.branchMoves id node branches, m.Fits j.graph := by
    intro branches
    induction branches with
    | nil => simp [branchMoves]
    | cons b rest ih =>
      simp only [branchMoves]
      split
      · simp [Move.Fits, found]
      · simpa [Move.Fits, found] using ih
  intro m hm
  cases h : node.body <;> simp only [entryMoves, h, List.mem_cons, List.not_mem_nil, or_false] at hm
  case trigger => rw [hm]; exact ⟨found, .inl rfl⟩
  case «switch» branches =>
    rcases hm with rfl | hm
    · exact ⟨found, .inl rfl⟩
    · exact hbranches branches m hm
  case enroll => rw [hm]; exact ⟨found, h⟩
  case wait => rw [hm]; exact ⟨found, h⟩

/-- Every move of a course is made at a node of the graph and fits its body. -/
theorem fits_of_mem_course (j : Journey) (agenda visited : List String) :
    ∀ m ∈ j.course agenda visited, m.Fits j.graph := by
  fun_induction course j agenda visited with
  | case1 visited => simp
  | case2 visited id rest missing ih => exact ih
  | case3 visited id rest node found old ih =>
    intro m hm
    rcases List.mem_cons.1 hm with rfl | hm
    · exact ⟨found, .inr (.inr rfl)⟩
    · exact ih m hm
  | case4 visited id rest node found new ih =>
    intro m hm
    rcases List.mem_cons.1 hm with rfl | hm
    · exact ⟨node, found⟩
    · rcases List.mem_append.1 hm with hm | hm
      · exact fits_of_mem_entryMoves found m hm
      · exact ih m hm

/-- Entering a node starts with a move at it, and all its moves are made there. -/
theorem entryMoves_spec (j : Journey) (id : String) (node : Node) :
    (∃ m ∈ j.entryMoves id node, m.logs = true) ∧ ∀ m ∈ j.entryMoves id node, m.nodeId = id := by
  have hbranches : ∀ branches, ∀ m ∈ j.branchMoves id node branches, m.nodeId = id := by
    intro branches
    induction branches with
    | nil => simp [branchMoves]
    | cons b rest ih =>
      simp only [branchMoves]
      split
      · simp [Move.nodeId]
      · simpa [Move.nodeId] using ih
  cases h : node.body with
  | trigger t => simp [entryMoves, h, Move.nodeId, Move.logs]
  | «switch» branches => simpa [entryMoves, h, Move.nodeId, Move.logs] using hbranches branches
  | enroll e => simp [entryMoves, h, Move.nodeId, Move.logs]
  | wait w => simp [entryMoves, h, Move.nodeId, Move.logs]

/-- Entering a node starts with a move that logs a step. -/
theorem exists_entryMoves_eq (j : Journey) (id : String) (node : Node) :
    ∃ m rest, j.entryMoves id node = m :: rest ∧ m.logs = true ∧ m.nodeId = id := by
  cases h : node.body with
  | trigger t => exact ⟨_, _, by rw [entryMoves, h], rfl, rfl⟩
  | «switch» branches => exact ⟨_, _, by rw [entryMoves, h], rfl, rfl⟩
  | enroll e => exact ⟨_, _, by rw [entryMoves, h], rfl, rfl⟩
  | wait w => exact ⟨_, _, by rw [entryMoves, h], rfl, rfl⟩

/-- The nodes at which a course makes moves have been visited by its end. -/
theorem nodeId_mem_of_mem_course (j : Journey) (agenda visited : List String) :
    ∀ m ∈ j.course agenda visited,
      m.nodeId ∈ Move.visits (j.course agenda visited) ++ visited := by
  fun_induction course j agenda visited with
  | case1 visited => simp
  | case2 visited id rest missing ih => exact ih
  | case3 visited id rest node found old ih =>
    have hvisits : Move.visits (revisit id node :: j.course rest visited) =
        Move.visits (j.course rest visited) := rfl
    rw [hvisits]
    intro m hm
    rcases List.mem_cons.1 hm with rfl | hm
    · exact List.mem_append_right _ old
    · exact ih m hm
  | case4 visited id rest node found new ih =>
    rw [Move.visits_cons_visit, Move.visits_append, visits_entryMoves, List.append_nil,
      List.append_assoc, List.singleton_append]
    intro m hm
    rcases List.mem_cons.1 hm with rfl | hm
    · exact List.mem_append_right _ List.mem_cons_self
    · rcases List.mem_append.1 hm with hm | hm
      · rw [(j.entryMoves_spec id node).2 m hm]
        exact List.mem_append_right _ List.mem_cons_self
      · exact ih m hm

/-- Whatever a course visits, it also makes a further move at. -/
theorem exists_move_of_mem_visits (j : Journey) (agenda visited : List String) :
    ∀ id ∈ Move.visits (j.course agenda visited),
      ∃ m ∈ j.course agenda visited, m.logs = true ∧ m.nodeId = id := by
  fun_induction course j agenda visited with
  | case1 visited => simp [Move.visits]
  | case2 visited id rest missing ih => exact ih
  | case3 visited id rest node found old ih =>
    intro other hother
    obtain ⟨m, hm, hspec⟩ := ih other hother
    exact ⟨m, List.mem_cons_of_mem _ hm, hspec⟩
  | case4 visited id rest node found new ih =>
    rw [Move.visits_cons_visit, Move.visits_append, visits_entryMoves, List.append_nil]
    intro other hother
    rcases List.mem_append.1 hother with hother | hother
    · obtain ⟨m, hm, hspec⟩ := ih other hother
      exact ⟨m, List.mem_cons_of_mem _ (List.mem_append_right _ hm), hspec⟩
    · obtain rfl := List.mem_singleton.1 hother
      obtain ⟨⟨m, hm, hlogs⟩, hall⟩ := j.entryMoves_spec other node
      exact ⟨m, List.mem_cons_of_mem _ (List.mem_append_left _ hm), hlogs, hall m hm⟩

/-- What a node is entered for at most once happens at most once in a course, and not at all if the
node was visited before. -/
theorem countP_course_le (j : Journey) (p : Move → Bool) (id : String)
    (revisits : ∀ other node, p (revisit other node) = false)
    (entries : ∀ other node, (Move.visit other :: j.entryMoves other node).countP p ≤
      if other = id then 1 else 0)
    (agenda visited : List String) :
    (j.course agenda visited).countP p ≤ if id ∈ visited then 0 else 1 := by
  fun_induction course j agenda visited with
  | case1 visited => simp
  | case2 visited other rest missing ih => exact ih
  | case3 visited other rest node found old ih =>
    rw [List.countP_cons_of_neg (by simp [revisits])]
    exact ih
  | case4 visited other rest node found new ih =>
    have hentry := entries other node
    rw [← List.cons_append, List.countP_append]
    by_cases h : other = id
    · subst h
      simp only [List.mem_cons, true_or, if_true, if_neg new] at ih hentry ⊢
      omega
    · have hother : id ∈ other :: visited ↔ id ∈ visited := by simp [Ne.symm h]
      simp only [hother, if_neg h] at ih hentry
      omega

end Journey

namespace WalkState

/-- Carry out a move. Nothing moves a truncated state. -/
def perform (j : Journey) (s : WalkState) : Move → WalkState
  | .visit id => if s.truncated then s else s.visit id
  | .note id node action detail => s.record (s.nodeStep id node action detail)
  | .enroll id node e => s.enroll j id node e
  | .wait id node w => s.wait j id node w

/-- Carry out moves in order. -/
def performAll (j : Journey) (moves : List Move) (s : WalkState) : WalkState :=
  moves.foldl (perform j) s

@[simp] theorem performAll_nil (j : Journey) (s : WalkState) : s.performAll j [] = s := rfl

@[simp] theorem performAll_cons (j : Journey) (m : Move) (moves : List Move) (s : WalkState) :
    s.performAll j (m :: moves) = (s.perform j m).performAll j moves := rfl

theorem performAll_append (j : Journey) (ms ns : List Move) (s : WalkState) :
    s.performAll j (ms ++ ns) = (s.performAll j ms).performAll j ns := List.foldl_append

@[simp] theorem record_of_truncated {s : WalkState} (h : s.truncated = true) (step : Step) :
    s.record step = s := by simp [record, h]

theorem perform_of_truncated (j : Journey) {s : WalkState} (h : s.truncated = true) (m : Move) :
    s.perform j m = s := by
  cases m with
  | visit id => simp [perform, h]
  | note id node action detail => simp [perform, h]
  | enroll id node e =>
    simp only [perform, enroll, record_of_truncated h, h, if_true]
    split <;> rfl
  | wait id node w =>
    simp only [perform, wait, record_of_truncated h, h, if_true]
    split <;> rfl

theorem performAll_of_truncated (j : Journey) {s : WalkState} (h : s.truncated = true)
    (moves : List Move) : s.performAll j moves = s := by
  induction moves with
  | nil => rfl
  | cons m ms ih => rw [performAll_cons, perform_of_truncated j h, ih]

theorem tryBranches_eq (j : Journey) (id : String) (node : Node) (branches : List Branch)
    (s : WalkState) : tryBranches j id node branches s =
      (s.performAll j (j.branchMoves id node branches), j.branchTargets id branches) := by
  induction branches generalizing s with
  | nil => rfl
  | cons b rest ih =>
    simp only [tryBranches, Journey.branchMoves, Journey.branchTargets]
    split
    · rfl
    · rw [ih, performAll_cons]
      rfl

/-- Entering a node performs its moves and goes on to the ids that follow. -/
theorem enter_eq (j : Journey) (id : String) (node : Node) (s : WalkState) :
    s.enter j id node = (s.performAll j (j.entryMoves id node), j.onward id node) := by
  cases h : node.body with
  | trigger t => simp [enter, Journey.entryMoves, Journey.onward, h, perform]
  | «switch» branches =>
    simp [enter, Journey.entryMoves, Journey.onward, h, perform, tryBranches_eq]
  | enroll e => simp [enter, Journey.entryMoves, Journey.onward, h, perform]
  | wait w => simp [enter, Journey.entryMoves, Journey.onward, h, perform]

/-- A walk performs its course. -/
theorem walk_eq (j : Journey) (agenda : List String) (s : WalkState) :
    s.walk j agenda = s.performAll j (j.course agenda s.visited) := by
  fun_induction walk j agenda s with
  | case1 s => rw [Journey.course_nil, performAll_nil]
  | case2 s id rest h => rw [performAll_of_truncated j h]
  | case3 s id rest h missing ih => rw [ih, Journey.course_of_missing missing]
  | case4 s id rest h node found old ih =>
    rw [ih, record_visited, Journey.course_of_visited found rest old, performAll_cons]
    rfl
  | case5 s id rest h node found new ih =>
    have hvisit : s.perform j (.visit id) = s.visit id := by simp [perform, h]
    rw [ih, enter_visited, visit_visited, enter_eq, Journey.course_of_new found rest new,
      performAll_cons, hvisit, performAll_append]

end WalkState

end Dunning
