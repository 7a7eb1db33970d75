import Dunning.Flow.Graph

/-!
# Checking flows

All the problems of a definition, in a fixed order: repeated node ids, a missing
trigger, then the problems of the edges and those of the nodes.
-/
namespace Dunning

inductive Finding where
  | duplicateNode (id : String)
  | noTriggers
  | invalidEdge (edgeId source target : String)
  | missingBranchHandle (edgeId nodeId : String)
  | unknownBranchHandle (edgeId nodeId handle : String)
  | emptySwitch (id : String)
  | zeroWait (id : String)
  | orphanNode (id : String)
  deriving DecidableEq, Repr

namespace Finding

def message : Finding → String
  | duplicateNode id => "duplicate node id: " ++ id
  | noTriggers => "no trigger nodes found"
  | invalidEdge edgeId source target =>
      "edge '" ++ edgeId ++ "' references unknown node: from=" ++ source ++ ", to=" ++ target
  | missingBranchHandle edgeId nodeId =>
      "edge '" ++ edgeId ++ "' leaves switch '" ++ nodeId ++ "' without a branch handle"
  | unknownBranchHandle edgeId nodeId handle =>
      "edge '" ++ edgeId ++ "' leaves switch '" ++ nodeId ++ "' through unknown branch '" ++
        handle ++ "'"
  | emptySwitch id => "switch '" ++ id ++ "' has no branches"
  | zeroWait id => "wait '" ++ id ++ "' has a zero duration"
  | orphanNode id => "node '" ++ id ++ "' has no incoming edges but is not a trigger (orphan node)"

end Finding

namespace Flow

/-- One finding for each node whose id was seen before. -/
def duplicateFindings (seen : List String) : List Node → List Finding
  | [] => []
  | n :: rest =>
      if n.id ∈ seen then .duplicateNode n.id :: duplicateFindings seen rest
      else duplicateFindings (n.id :: seen) rest

def triggerFindings (flow : Flow) : List Finding :=
  if flow.nodes.any fun n => n.body.isTrigger then [] else [.noTriggers]

/-- An edge must join two nodes, and leave a switch through one of its branches. -/
def edgeFindings (graph : Graph) (edge : Edge) : List Finding :=
  let source := graph.node? edge.source
  let ends :=
    if source.isNone || (graph.node? edge.target).isNone then
      [Finding.invalidEdge edge.id edge.source edge.target]
    else []
  let handle := match source.map Node.body with
    | some (.switch branches) =>
        match edge.sourceHandle with
        | none => [Finding.missingBranchHandle edge.id edge.source]
        | some handle =>
            if branches.any fun b => b.id == handle then []
            else [Finding.unknownBranchHandle edge.id edge.source handle]
    | _ => []
  ends ++ handle

/-- All nodes but triggers need an incoming edge; switches need branches and waits a duration. -/
def nodeFindings (graph : Graph) (node : Node) : List Finding :=
  if node.body.isTrigger then []
  else
    let own := match node.body with
      | .switch [] => [Finding.emptySwitch node.id]
      | .wait w => if w.duration = 0 then [Finding.zeroWait node.id] else []
      | _ => []
    let orphan := if (graph.incoming node.id).isEmpty then [Finding.orphanNode node.id] else []
    own ++ orphan

/-- All problems of a flow; none means that it is clean. -/
def check (flow : Flow) : List Finding :=
  let graph := Graph.ofFlow flow
  duplicateFindings [] flow.nodes ++ flow.triggerFindings ++
    flow.edges.flatMap (edgeFindings graph) ++ flow.nodes.flatMap (nodeFindings graph)

end Flow

end Dunning
