import Dunning.Proofs.Walk.Drain
import Mathlib.Algebra.BigOperators.Group.Finset.Basic
import Mathlib.Data.Multiset.Bind

/-!
# What a walk reaches

Which nodes a walk can come to, over which edges, and how many steps that takes, said of
the graph and the event alone. An entered node has active edges: a switch at most one, a
wait that stops the walk none, any other node all that leave it. Reached is what the
starts lead to over active edges. A walk arrives at a node once for each start and each
active edge that names it.
-/
namespace Dunning

namespace Journey

/-- The ids of nodes among ids, in order. -/
def present (j : Journey) (ids : List String) : List String :=
  ids.filter fun id => (j.graph.node? id).isSome

/-- The edges over which a run goes on from an entered node. A switch takes the first edge that
leaves it through its first matching branch. -/
def activeEdges (j : Journey) (stops : Bool) (id : String) (node : Node) : List Edge :=
  match node.body with
  | .trigger _ => j.graph.outgoing id
  | .enroll _ => j.graph.outgoing id
  | .wait _ => if stops then [] else j.graph.outgoing id
  | .switch branches =>
      let first := branches.find? fun b => b.condition.holds j.event
      (first.bind fun b => (j.graph.outgoing id).find? fun e => e.sourceHandle == some b.id).toList

/-- The nodes to which the active edges of a node lead. -/
def ways (j : Journey) (stops : Bool) (id : String) : List String :=
  match j.graph.node? id with
  | none => []
  | some node => j.present ((j.activeEdges stops id node).map Edge.target)

/-- The steps of one entry of a node. A switch tries its branches up to the first that matches. -/
def entrySteps (j : Journey) (id : String) : Nat :=
  match j.graph.node? id with
  | none => 0
  | some node => match node.body with
    | .switch branches =>
        match branches.findIdx? fun b => b.condition.holds j.event with
        | none => 1 + branches.length
        | some i => 1 + (i + 1)
    | _ => 1

/-- The least set of nodes that holds the starts and is closed under active edges. -/
inductive Reached (j : Journey) (stops : Bool) (starts : List String) : String → Prop where
  | start {id : String} (h : id ∈ j.present starts) : Reached j stops starts id
  | follow {id next : String} (before : Reached j stops starts id) (h : next ∈ j.ways stops id) :
      Reached j stops starts next

section
variable {j : Journey} {stops : Bool} {id : String} {node : Node}

theorem mem_present {ids : List String} :
    id ∈ j.present ids ↔ id ∈ ids ∧ ∃ node, j.graph.node? id = some node := by
  rw [present, List.mem_filter, Option.isSome_iff_exists]

theorem present_append (ids others : List String) :
    j.present (ids ++ others) = j.present ids ++ j.present others := List.filter_append ..

theorem present_cons_of_found (found : j.graph.node? id = some node) (rest : List String) :
    j.present (id :: rest) = id :: j.present rest := by
  simp [present, found]

theorem present_cons_of_missing (missing : j.graph.node? id = none) (rest : List String) :
    j.present (id :: rest) = j.present rest := by
  simp [present, missing]

/-- Active edges lead to nodes. -/
theorem exists_node_of_mem_ways {next : String} (h : next ∈ j.ways stops id) :
    ∃ node, j.graph.node? next = some node := by
  unfold ways at h
  split at h
  · cases h
  · exact (mem_present.1 h).2

/-- What is reached is a node. -/
theorem Reached.exists_node {starts : List String} (h : j.Reached stops starts id) :
    ∃ node, j.graph.node? id = some node := by
  cases h with
  | start h => exact (mem_present.1 h).2
  | follow _ h => exact exists_node_of_mem_ways h

end

/-- A node that is found has its id in the index. -/
theorem mem_keys_of_lookup {nodes : List (String × Node)} {id : String} {node : Node}
    (found : nodes.lookup id = some node) : id ∈ nodes.map Prod.fst := by
  induction nodes with
  | nil => cases found
  | cons p rest ih =>
    rw [List.map_cons]
    by_cases h : id = p.1
    · exact h ▸ List.mem_cons_self
    · have hne : (id == p.1) = false := by simpa using h
      obtain ⟨key, value⟩ := p
      rw [List.lookup_cons, hne] at found
      exact List.mem_cons_of_mem _ (ih found)

open Classical in
/-- The nodes that are reached. -/
noncomputable def reach (j : Journey) (stops : Bool) (starts : List String) : Finset String :=
  (j.graph.nodes.map Prod.fst).toFinset.filter (j.Reached stops starts)

theorem mem_reach {j : Journey} {stops : Bool} {starts : List String} {id : String} :
    id ∈ j.reach stops starts ↔ j.Reached stops starts id := by
  classical
  show id ∈ (j.graph.nodes.map Prod.fst).toFinset.filter _ ↔ _
  rw [Finset.mem_filter, List.mem_toFinset]
  refine and_iff_right_of_imp fun h => ?_
  obtain ⟨node, found⟩ := h.exists_node
  exact mem_keys_of_lookup found

/-- The nodes at which a walk arrives, each as often as a start or an active edge names it. -/
noncomputable def arrivals (j : Journey) (stops : Bool) (starts : List String) : Multiset String :=
  (j.present starts : Multiset String) +
    (j.reach stops starts).val.bind fun id => (j.ways stops id : Multiset String)

/-- The steps of a walk that no limit ends: one for each arrival that is not the first one at its
node, and those of the entries. -/
noncomputable def extent (j : Journey) (stops : Bool) (starts : List String) : Nat :=
  ((j.arrivals stops starts).card - (j.reach stops starts).card) +
    ∑ id ∈ j.reach stops starts, j.entrySteps id

/-- Whether a node is a wait. -/
def isWait (j : Journey) (id : String) : Bool :=
  match j.graph.node? id with
  | none => false
  | some node => match node.body with
    | .wait _ => true
    | _ => false

/-- A switch goes on over the edge of its first matching branch. -/
theorem branchTargets_eq (j : Journey) (id : String) (branches : List Branch) :
    j.branchTargets id branches =
      ((branches.find? fun b => b.condition.holds j.event).bind fun b =>
        j.graph.branchEdge id b.id).toList.map Edge.target := by
  induction branches with
  | nil => rfl
  | cons b rest ih =>
    rw [branchTargets, List.find?_cons]
    cases h : b.condition.holds j.event with
    | true => rfl
    | false => simpa using ih

/-- A walk goes on over the active edges of a node at which waits stop it. -/
theorem ways_stopping {j : Journey} {id : String} {node : Node}
    (found : j.graph.node? id = some node) : j.ways true id = j.present (j.onward id node) := by
  simp only [ways, found, activeEdges, onward]
  cases node.body with
  | trigger t => rfl
  | «switch» branches => exact congrArg j.present (j.branchTargets_eq id branches).symm
  | enroll e => rfl
  | wait w => rfl

/-- Where waits do not stop a run, it also goes on over the edges that leave them. -/
theorem ways_passing (j : Journey) (id : String) :
    j.ways false id = j.ways true id ++ if j.isWait id then j.present (j.targets id) else [] := by
  unfold ways isWait
  cases j.graph.node? id with
  | none => rfl
  | some node => cases h : node.body <;> simp [activeEdges, h, targets, present]

theorem length_branchMoves (j : Journey) (id : String) (node : Node) (branches : List Branch) :
    (j.branchMoves id node branches).length =
      match branches.findIdx? fun b => b.condition.holds j.event with
      | none => branches.length
      | some i => i + 1 := by
  induction branches with
  | nil => rfl
  | cons b rest ih =>
    rw [branchMoves, List.findIdx?_cons]
    cases h : b.condition.holds j.event with
    | true => rfl
    | false =>
      simp only [Bool.false_eq_true, if_false, List.length_cons, ih]
      cases rest.findIdx? fun b => b.condition.holds j.event <;> rfl

theorem length_entryMoves {j : Journey} {id : String} {node : Node}
    (found : j.graph.node? id = some node) :
    (j.entryMoves id node).length = j.entrySteps id := by
  simp only [entryMoves, entrySteps, found]
  cases node.body with
  | «switch» branches =>
    simp only [List.length_cons, length_branchMoves]
    cases branches.findIdx? fun b => b.condition.holds j.event with
    | none => exact Nat.add_comm _ _
    | some i => exact Nat.add_comm _ _
  | _ => rfl

/-- Entering a node logs at least one step. -/
theorem one_le_entrySteps {j : Journey} {id : String} {node : Node}
    (found : j.graph.node? id = some node) : 1 ≤ j.entrySteps id := by
  obtain ⟨⟨m, hm, -⟩, -⟩ := j.entryMoves_spec id node
  rw [← length_entryMoves found]
  exact List.length_pos_of_mem hm

end Journey

end Dunning
