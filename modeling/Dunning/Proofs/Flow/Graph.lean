import Dunning.Condition
import Dunning.Flow.Graph

/-!
# What a graph finds of its flow

A graph finds under an id the first node of the flow that has it, and the edges that leave
it in the order of the definition. The way of a switch is the first edge that leaves it
through its first matching branch, and may lead nowhere.
-/
namespace Dunning

/-- The first branch of a switch whose condition holds of an event. -/
def Branch.first? (event : Event) (branches : List Branch) : Option Branch :=
  branches.find? fun b => b.condition.holds event

namespace Flow

/-- The first edge of a flow that leaves a switch through its first matching branch. -/
def way (flow : Flow) (event : Event) (id : String) (branches : List Branch) : Option Edge :=
  (Branch.first? event branches).bind fun b =>
    flow.edges.find? fun e => e.source = id && e.sourceHandle = some b.id

/-- The node to which the way of a switch leads, if there is such a node. -/
def forkTarget (flow : Flow) (event : Event) (id : String) (branches : List Branch) :
    Option String :=
  ((flow.way event id branches).map Edge.target).filter fun target => (flow.node? target).isSome

end Flow

namespace Graph

theorem lookup_addNode (nodes : List (String × Node)) (node : Node) (id : String) :
    (addNode nodes node).lookup id =
      (nodes.lookup id).or (if node.id = id then some node else none) := by
  unfold addNode
  by_cases hid : node.id = id
  · subst hid
    cases hfound : nodes.lookup node.id with
    | none => simp [List.lookup_append, hfound]
    | some first => simp [hfound]
  · have hne : (id == node.id) = false := by simpa using Ne.symm hid
    rw [if_neg hid, Option.or_none]
    split
    · rfl
    · simp [List.lookup_append, List.lookup_cons, hne]

theorem lookup_foldl_addNode (more : List Node) (nodes : List (String × Node)) (id : String) :
    (more.foldl addNode nodes).lookup id =
      (nodes.lookup id).or (more.find? fun n => n.id = id) := by
  induction more generalizing nodes with
  | nil => simp
  | cons node rest ih =>
    rw [List.foldl_cons, ih, lookup_addNode, Option.or_assoc, List.find?_cons]
    by_cases hid : node.id = id <;> simp [hid]

/-- The graph of a flow has the first node of each id. -/
theorem node?_ofFlow (flow : Flow) (id : String) : (ofFlow flow).node? id = flow.node? id := by
  rw [node?, ofFlow, lookup_foldl_addNode]
  rfl

/-- An edge is put behind those of its key, and the other keys are left alone. -/
theorem lookup_addEdge (key : String) (edge : Edge) (index : List (String × List Edge))
    (id : String) : ((addEdge key edge index).lookup id).getD [] =
      (index.lookup id).getD [] ++ if key = id then [edge] else [] := by
  induction index with
  | nil =>
    by_cases hid : id = key
    · simp [addEdge, hid]
    · have hne : (id == key) = false := by simpa using hid
      simp [addEdge, List.lookup_cons, hne, Ne.symm hid]
  | cons entry rest ih =>
    obtain ⟨k, edges⟩ := entry
    simp only [addEdge]
    by_cases hid : id = k
    · subst hid
      by_cases hkey : key = id <;> simp [hkey, eq_comm]
    · have hne : (id == k) = false := by simpa using hid
      split
      · rename_i hkey
        subst hkey
        simp [List.lookup_cons, hne, Ne.symm hid]
      · simpa [List.lookup_cons, hne] using ih

theorem lookup_foldl_addEdge (key : Edge → String) (edges : List Edge)
    (index : List (String × List Edge)) (id : String) :
    ((edges.foldl (fun index e => addEdge (key e) e index) index).lookup id).getD [] =
      (index.lookup id).getD [] ++ edges.filter fun e => key e = id := by
  induction edges generalizing index with
  | nil => simp
  | cons e rest ih =>
    rw [List.foldl_cons, ih, lookup_addEdge, List.append_assoc, List.filter_cons]
    by_cases hid : key e = id <;> simp [hid]

/-- The graph of a flow has the edges that leave a node in definition order. -/
theorem outgoing_ofFlow (flow : Flow) (id : String) :
    (ofFlow flow).outgoing id = flow.edges.filter fun e => e.source = id := by
  rw [outgoing, ofFlow, lookup_foldl_addEdge]
  rfl

/-- The graph of a flow has the edges that lead to a node in definition order. -/
theorem incoming_ofFlow (flow : Flow) (id : String) :
    (ofFlow flow).incoming id = flow.edges.filter fun e => e.target = id := by
  rw [incoming, ofFlow, lookup_foldl_addEdge]
  rfl

/-- Among the edges of a node the first one with a handle is the first of the flow that has both. -/
theorem branchEdge_ofFlow (flow : Flow) (id branch : String) : (ofFlow flow).branchEdge id branch =
    flow.edges.find? fun e => e.source = id && e.sourceHandle = some branch := by
  rw [branchEdge, outgoing_ofFlow, List.find?_filter]
  congr 1
  funext e
  simp

theorem downstream_ofFlow (flow : Flow) (id : String) : (ofFlow flow).downstream id =
    (flow.edges.filter fun e => e.source = id).filterMap fun e => flow.node? e.target := by
  simp only [downstream, outgoing_ofFlow, node?_ofFlow]

/-- An index of a flow answers every question as a search through the flow does. The node of an id
is the first one that has it, the edges of a node are all that name it as their source or their
target, and the nodes behind a node are the targets of its edges, as often as edges lead to them. -/
theorem index_answers_as_flow (flow : Flow) (id branch : String) :
    (ofFlow flow).node? id = flow.node? id ∧
    (∀ n, flow.node? id = some n ↔ n.id = id ∧ ∃ before after,
      flow.nodes = before ++ n :: after ∧ ∀ m ∈ before, m.id ≠ id) ∧
    (ofFlow flow).outgoing id = (flow.edges.filter fun e => e.source = id) ∧
    (ofFlow flow).incoming id = (flow.edges.filter fun e => e.target = id) ∧
    (ofFlow flow).branchEdge id branch =
      (flow.edges.find? fun e => e.source = id && e.sourceHandle = some branch) ∧
    (ofFlow flow).downstream id =
      (flow.edges.filter fun e => e.source = id).filterMap fun e => flow.node? e.target := by
  refine ⟨node?_ofFlow flow id, fun n => ?_, outgoing_ofFlow flow id, incoming_ofFlow flow id,
    branchEdge_ofFlow flow id branch, downstream_ofFlow flow id⟩
  rw [Flow.node?, List.find?_eq_some_iff_append]
  simp

/-- A graph in which the edges that leave a node name it as their source. -/
def Sourced (g : Graph) : Prop := ∀ id, ∀ e ∈ g.outgoing id, e.source = id

theorem sourced_ofFlow (flow : Flow) : (ofFlow flow).Sourced := by
  intro id e he
  rw [outgoing_ofFlow] at he
  simpa using (List.mem_filter.1 he).2

/-- The first edge of a graph that leaves a switch through its first matching branch. -/
def way (g : Graph) (event : Event) (id : String) (branches : List Branch) : Option Edge :=
  (Branch.first? event branches).bind fun b => g.branchEdge id b.id

/-- The node to which the way of a switch leads, if there is such a node. -/
def forkTarget (g : Graph) (event : Event) (id : String) (branches : List Branch) :
    Option String :=
  ((g.way event id branches).map Edge.target).filter fun target => (g.node? target).isSome

/-- The graph of a flow has its ways. -/
theorem way_ofFlow (flow : Flow) (event : Event) (id : String) (branches : List Branch) :
    (ofFlow flow).way event id branches = flow.way event id branches := by
  simp only [way, Flow.way, branchEdge_ofFlow]

theorem forkTarget_ofFlow (flow : Flow) (event : Event) (id : String) (branches : List Branch) :
    (ofFlow flow).forkTarget event id branches = flow.forkTarget event id branches := by
  simp only [forkTarget, Flow.forkTarget, way_ofFlow, node?_ofFlow]

end Graph

end Dunning
