import Dunning.Proofs.Walk.Reach
import Mathlib.Algebra.Order.BigOperators.Group.Multiset
import Mathlib.Tactic.Abel

/-!
# The survey of a graph

However a run explores a graph, at whichever of its waits it goes on first, its moves are
those of entering each visited node once and of coming back to nodes as often as more
edges lead there. So a run that has gone on behind all its waits has visited what is
reached, and its moves are settled but for their order.
-/
namespace Dunning

/-- What a step says of a node, without the text and the time. -/
structure Mark where
  nodeId : String
  nodeKind : Option NodeKind
  action : StepAction
  deriving DecidableEq

def Step.mark (step : Step) : Mark := ⟨step.nodeId, step.nodeKind, step.action⟩

namespace Move

/-- The mark of the step that a move logs, at a wait that has an end. -/
def marks (mode : Mode) : Move → List Mark
  | visit _ => []
  | note id node action _ => [⟨id, some node.kind, action⟩]
  | enroll id node _ => [⟨id, some node.kind, match mode with
      | .live => .enqueued
      | .dryRun => .executed⟩]
  | wait id node _ => [⟨id, some node.kind, .waited⟩]

/-- The wait that a move comes to. -/
def waitIds : Move → List String
  | wait id _ _ => [id]
  | _ => []

end Move

namespace Journey

/-- The moves of the first arrival at a node. -/
def entering (j : Journey) (id : String) : List Move :=
  match j.graph.node? id with
  | none => []
  | some node => .visit id :: j.entryMoves id node

/-- The moves of a later arrival at a node. -/
def returning (j : Journey) (id : String) : List Move :=
  match j.graph.node? id with
  | none => []
  | some node => [revisit id node]

/-- The books of moves that arrive at nodes: each visited node is entered once, and all further
arrivals are repeats. What follows from the entries arrives in turn. -/
structure Accounts (j : Journey) (arrived : Multiset String) (moves : List Move)
    (visited : List String) (repeats : Multiset String) : Prop where
  made : (moves : Multiset Move) =
    (Move.visits moves : Multiset String).bind (fun id => (j.entering id : Multiset Move)) +
      repeats.bind fun id => (j.returning id : Multiset Move)
  arrivals : arrived + (Move.visits moves : Multiset String).bind (fun id =>
    (j.ways true id : Multiset String)) = (Move.visits moves : Multiset String) + repeats
  nodup : (Move.visits moves).Nodup
  new : ∀ id ∈ Move.visits moves, id ∉ visited
  found : ∀ id ∈ Move.visits moves, ∃ node, j.graph.node? id = some node
  old : ∀ id ∈ repeats, id ∈ Move.visits moves ++ visited

theorem Accounts.nil (j : Journey) (visited : List String) : j.Accounts 0 [] visited 0 where
  made := rfl
  arrivals := rfl
  nodup := List.nodup_nil
  new := by simp [Move.visits]
  found := by simp [Move.visits]
  old := by simp

/-- Books are continued from all that has been visited. -/
theorem Accounts.append {j : Journey} {arrived arrived' repeats repeats' : Multiset String}
    {ms ns : List Move} {visited : List String} (h : j.Accounts arrived ms visited repeats)
    (h' : j.Accounts arrived' ns (Move.visits ms ++ visited) repeats') :
    j.Accounts (arrived + arrived') (ms ++ ns) visited (repeats + repeats') where
  made := by
    rw [← Multiset.coe_add, h.made, h'.made, Move.visits_append, ← Multiset.coe_add,
      Multiset.add_bind, Multiset.add_bind]
    abel
  arrivals := by
    rw [Move.visits_append, ← Multiset.coe_add, Multiset.add_bind]
    have hfirst := h.arrivals
    have hsecond := h'.arrivals
    calc
      _ = (arrived + (Move.visits ms : Multiset String).bind fun id =>
            (j.ways true id : Multiset String)) +
          (arrived' + (Move.visits ns : Multiset String).bind fun id =>
            (j.ways true id : Multiset String)) := by abel
      _ = (Move.visits ms + repeats) + (Move.visits ns + repeats') := by rw [hfirst, hsecond]
      _ = _ := by abel
  nodup := by
    rw [Move.visits_append]
    refine List.nodup_append.2 ⟨h'.nodup, h.nodup, fun a ha b hb hab => ?_⟩
    exact h'.new a ha (List.mem_append_left _ (hab ▸ hb))
  new id hid := by
    rw [Move.visits_append] at hid
    rcases List.mem_append.1 hid with hid | hid
    · exact fun hold => h'.new id hid (List.mem_append_right _ hold)
    · exact h.new id hid
  found id hid := by
    rw [Move.visits_append] at hid
    exact (List.mem_append.1 hid).elim (h'.found id) (h.found id)
  old id hid := by
    rw [Move.visits_append, List.append_assoc]
    rcases Multiset.mem_add.1 hid with hid | hid
    · exact List.mem_append_right _ (h.old id hid)
    · exact h'.old id hid

/-- An arrival at a node that was visited before is a repeat. -/
theorem accounts_revisit {j : Journey} {id : String} {node : Node}
    (found : j.graph.node? id = some node) {visited : List String} (old : id ∈ visited) :
    j.Accounts {id} [revisit id node] visited {id} := by
  have hvisits : Move.visits [revisit id node] = [] := rfl
  constructor <;> rw [hvisits]
  · simp [returning, found]
  · simp
  · exact List.nodup_nil
  · simp
  · simp
  · simpa using old

/-- A new node is entered, and what follows from it arrives. -/
theorem accounts_entry {j : Journey} {id : String} {node : Node}
    (found : j.graph.node? id = some node) {visited : List String} (new : id ∉ visited)
    {arrived repeats : Multiset String} {moves : List Move}
    (h : j.Accounts (j.present (j.onward id node) + arrived) moves (id :: visited) repeats) :
    j.Accounts ({id} + arrived) (.visit id :: (j.entryMoves id node ++ moves)) visited repeats := by
  have hvisits : Move.visits (.visit id :: (j.entryMoves id node ++ moves)) =
      Move.visits moves ++ [id] := by
    rw [Move.visits_cons_visit, Move.visits_append, visits_entryMoves, List.append_nil]
  have hentering : j.entering id = .visit id :: j.entryMoves id node := by simp [entering, found]
  constructor
  · rw [hvisits, ← List.cons_append, ← hentering, ← Multiset.coe_add, h.made, ← Multiset.coe_add,
      Multiset.add_bind, Multiset.coe_singleton, Multiset.singleton_bind]
    abel
  · have harrivals := h.arrivals
    rw [hvisits, ← Multiset.coe_add, Multiset.add_bind, Multiset.coe_singleton,
      Multiset.singleton_bind, ways_stopping found]
    calc
      _ = {id} + ((j.present (j.onward id node) : Multiset String) + arrived +
          (Move.visits moves : Multiset String).bind fun id =>
            (j.ways true id : Multiset String)) := by abel
      _ = {id} + (Move.visits moves + repeats) := by rw [harrivals]
      _ = _ := by abel
  · rw [hvisits]
    refine List.nodup_append.2 ⟨h.nodup, List.nodup_singleton id, fun a ha b hb hab => ?_⟩
    rw [List.mem_singleton] at hb
    exact h.new a ha (hab ▸ hb ▸ List.mem_cons_self)
  · rw [hvisits]
    intro other hother
    rcases List.mem_append.1 hother with hother | hother
    · exact fun hold => h.new other hother (List.mem_cons_of_mem _ hold)
    · exact List.mem_singleton.1 hother ▸ new
  · rw [hvisits]
    intro other hother
    rcases List.mem_append.1 hother with hother | hother
    · exact h.found other hother
    · exact ⟨node, List.mem_singleton.1 hother ▸ found⟩
  · rw [hvisits, List.append_assoc]
    exact h.old

/-- A course keeps its books of all that its agenda names. -/
theorem exists_accounts_course (j : Journey) (agenda visited : List String) :
    ∃ repeats, j.Accounts (j.present agenda) (j.course agenda visited) visited repeats := by
  fun_induction course j agenda visited with
  | case1 visited => exact ⟨0, .nil j visited⟩
  | case2 visited id rest missing ih =>
    rw [present_cons_of_missing missing]
    exact ih
  | case3 visited id rest node found old ih =>
    obtain ⟨repeats, h⟩ := ih
    rw [present_cons_of_found found, ← List.singleton_append, ← Multiset.coe_add,
      Multiset.coe_singleton]
    exact ⟨_, (accounts_revisit found old).append h⟩
  | case4 visited id rest node found new ih =>
    obtain ⟨repeats, h⟩ := ih
    rw [present_append, ← Multiset.coe_add] at h
    rw [present_cons_of_found found, ← List.singleton_append, ← Multiset.coe_add,
      Multiset.coe_singleton]
    exact ⟨repeats, accounts_entry found new h⟩

/-- A course visits nothing outside of a set that holds its agenda and is closed under the edges
over which a walk goes on from new nodes. -/
theorem mem_of_mem_visits (j : Journey) (P : String → Prop) (agenda visited : List String)
    (closed : ∀ id ∉ visited, P id → ∀ next ∈ j.ways true id, P next)
    (h : ∀ id ∈ j.present agenda, P id) : ∀ id ∈ Move.visits (j.course agenda visited), P id := by
  fun_induction course j agenda visited with
  | case1 visited => simp [Move.visits]
  | case2 visited id rest missing ih => exact ih closed (present_cons_of_missing missing rest ▸ h)
  | case3 visited id rest node found old ih =>
    rw [present_cons_of_found found] at h
    exact ih closed fun other hother => h other (List.mem_cons_of_mem _ hother)
  | case4 visited id rest node found new ih =>
    rw [present_cons_of_found found] at h
    have hclosed : ∀ other ∉ id :: visited, P other → ∀ next ∈ j.ways true other, P next :=
      fun other hother => closed other fun hold => hother (List.mem_cons_of_mem id hold)
    have hid : P id := h id List.mem_cons_self
    rw [Move.visits_cons_visit, Move.visits_append, visits_entryMoves, List.append_nil]
    intro other hother
    rcases List.mem_append.1 hother with hother | hother
    · refine ih hclosed (fun next hnext => ?_) other hother
      rw [present_append, ← ways_stopping found] at hnext
      rcases List.mem_append.1 hnext with hnext | hnext
      · exact closed id new hid next hnext
      · exact h next (List.mem_cons_of_mem _ hnext)
    · exact List.mem_singleton.1 hother ▸ hid

end Journey

end Dunning
