import Dunning.Flow.Basic

/-!
# The graph of a flow

An index of a flow by node id. With repeated ids the first node counts. Edges
keep the order of the definition, and an edge may lead nowhere.
-/
namespace Dunning

/-- The first node of each id, and the edges by their two ends. -/
structure Graph where
  nodes : List (String × Node)
  leaving : List (String × List Edge)
  entering : List (String × List Edge)
  deriving Inhabited

namespace Graph

/-- Add an edge under a key, after the edges that are there. -/
def addEdge (key : String) (edge : Edge) : List (String × List Edge) → List (String × List Edge)
  | [] => [(key, [edge])]
  | (k, edges) :: rest =>
      if k = key then (k, edges ++ [edge]) :: rest else (k, edges) :: addEdge key edge rest

/-- Add a node unless its id is taken. -/
def addNode (nodes : List (String × Node)) (node : Node) : List (String × Node) :=
  if (nodes.lookup node.id).isSome then nodes else nodes ++ [(node.id, node)]

def ofFlow (flow : Flow) : Graph where
  nodes := flow.nodes.foldl addNode []
  leaving := flow.edges.foldl (fun index e => addEdge e.source e index) []
  entering := flow.edges.foldl (fun index e => addEdge e.target e index) []

def node? (g : Graph) (id : String) : Option Node := g.nodes.lookup id

/-- The edges that leave a node, in definition order. -/
def outgoing (g : Graph) (id : String) : List Edge := (g.leaving.lookup id).getD []

/-- The edges that lead to a node, in definition order. -/
def incoming (g : Graph) (id : String) : List Edge := (g.entering.lookup id).getD []

/-- The first edge that leaves a node through a branch. -/
def branchEdge (g : Graph) (id branch : String) : Option Edge :=
  (g.outgoing id).find? fun e => e.sourceHandle == some branch

/-- The nodes that the outgoing edges lead to. -/
def downstream (g : Graph) (id : String) : List Node :=
  (g.outgoing id).filterMap fun e => g.node? e.target

end Graph

end Dunning
