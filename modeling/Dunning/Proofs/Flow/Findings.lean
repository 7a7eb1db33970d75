import Dunning.Flow.Check
import Dunning.Proofs.Flow.Graph
import Mathlib.Data.List.Nodup

/-!
# What the findings say

The check of a flow reads two indexes and keeps a list of the ids that it has seen. Here its
findings are told from the flow alone: which nodes and edges have which defect, and in which
order the defects are listed. A flow without any is clean.
-/
namespace Dunning

namespace Node

/-- The branches of a switch. -/
def branches? (n : Node) : Option (List Branch) :=
  match n.body with
  | .switch branches => some branches
  | _ => none

/-- The delay of a wait. -/
def wait? (n : Node) : Option Wait :=
  match n.body with
  | .wait w => some w
  | _ => none

def IsTrigger (n : Node) : Prop := n.kind = .trigger

instance (n : Node) : Decidable n.IsTrigger := inferInstanceAs (Decidable (n.kind = .trigger))

theorem isTrigger_iff (n : Node) : n.body.isTrigger = true ↔ n.IsTrigger := by
  unfold IsTrigger kind
  cases n.body <;> simp [NodeBody.isTrigger, NodeBody.kind]

theorem branches?_of_isTrigger {n : Node} (h : n.IsTrigger) : n.branches? = none := by
  unfold IsTrigger kind at h
  cases hbody : n.body <;> simp_all [branches?, NodeBody.kind]

theorem wait?_of_isTrigger {n : Node} (h : n.IsTrigger) : n.wait? = none := by
  unfold IsTrigger kind at h
  cases hbody : n.body <;> simp_all [wait?, NodeBody.kind]

/-- A switch without branches. -/
def EmptySwitch (n : Node) : Prop := ∃ branches ∈ n.branches?, branches = []

instance (n : Node) : Decidable n.EmptySwitch :=
  inferInstanceAs (Decidable (∃ branches ∈ n.branches?, branches = []))

/-- A wait of zero length. -/
def ZeroWait (n : Node) : Prop := ∃ w ∈ n.wait?, w.totalHours = 0

instance (n : Node) : Decidable n.ZeroWait :=
  inferInstanceAs (Decidable (∃ w ∈ n.wait?, w.totalHours = 0))

end Node

namespace Flow

/-- Whether a node has the id. -/
def Names (flow : Flow) (id : String) : Prop := ∃ n ∈ flow.nodes, n.id = id

instance (flow : Flow) (id : String) : Decidable (flow.Names id) :=
  inferInstanceAs (Decidable (∃ n ∈ flow.nodes, n.id = id))

/-- The branches of the first node with an id, if this node is a switch. -/
def branches? (flow : Flow) (id : String) : Option (List Branch) :=
  (flow.node? id).bind Node.branches?

/-- Whether an edge leads to an id. -/
def Enters (flow : Flow) (id : String) : Prop := ∃ e ∈ flow.edges, e.target = id

instance (flow : Flow) (id : String) : Decidable (flow.Enters id) :=
  inferInstanceAs (Decidable (∃ e ∈ flow.edges, e.target = id))

/-- The nodes whose id occurs earlier in the list. -/
def repeated (flow : Flow) : List Node :=
  (flow.nodes.zipIdx.filter fun (n, i) => ∃ m ∈ flow.nodes.take i, m.id = n.id).map Prod.fst

end Flow

namespace Edge

/-- An edge with both ends at nodes of the flow. -/
def Resolves (flow : Flow) (e : Edge) : Prop := flow.Names e.source ∧ flow.Names e.target

instance (flow : Flow) (e : Edge) : Decidable (e.Resolves flow) :=
  inferInstanceAs (Decidable (_ ∧ _))

/-- An edge that leaves a switch and has no handle. -/
def Unhandled (flow : Flow) (e : Edge) : Prop :=
  (flow.branches? e.source).isSome ∧ e.sourceHandle = none

instance (flow : Flow) (e : Edge) : Decidable (e.Unhandled flow) :=
  inferInstanceAs (Decidable (_ ∧ _))

/-- The handle of an edge that leaves a switch and names none of its branches. -/
def foreignHandle? (flow : Flow) (e : Edge) : Option String :=
  e.sourceHandle.filter fun handle =>
    ∃ branches ∈ flow.branches? e.source, ∀ b ∈ branches, b.id ≠ handle

end Edge

namespace Flow

/-- A flow in which every lookup by id succeeds, every switch has a way to choose and every wait
some time to pass. -/
structure Clean (flow : Flow) : Prop where
  distinct : (flow.nodes.map Node.id).Nodup
  triggered : ∃ n ∈ flow.nodes, n.IsTrigger
  resolves : ∀ e ∈ flow.edges, e.Resolves flow
  handled : ∀ e ∈ flow.edges, ∀ branches ∈ flow.branches? e.source,
    ∃ b ∈ branches, e.sourceHandle = some b.id
  branching : ∀ n ∈ flow.nodes, ¬ n.EmptySwitch
  lasting : ∀ n ∈ flow.nodes, ¬ n.ZeroWait
  entered : ∀ n ∈ flow.nodes, ¬ n.IsTrigger → flow.Enters n.id

end Flow

theorem Wait.totalHours_eq_zero (w : Wait) : w.totalHours = 0 ↔ w.duration = 0 := by
  cases h : w.unit <;> simp only [totalHours, WaitUnit.length, h] <;> omega

namespace Flow

theorem isNone_node? (flow : Flow) (id : String) : (flow.node? id).isNone ↔ ¬ flow.Names id := by
  simp [node?, Names]

/-- The ids seen before a node are those of the nodes in front of it. -/
theorem duplicateFindings_eq (before rest : List Node) (seen : List String)
    (told : ∀ id, id ∈ seen ↔ ∃ m ∈ before, m.id = id) :
    duplicateFindings seen rest =
      ((rest.zipIdx before.length).filter fun (n, i) =>
        ∃ m ∈ (before ++ rest).take i, m.id = n.id).map fun (n, _) => .duplicateNode n.id := by
  induction rest generalizing before seen with
  | nil => rfl
  | cons n rest ih =>
    have hsplit : before ++ n :: rest = (before ++ [n]) ++ rest := by simp
    have hlength : before.length + 1 = (before ++ [n]).length := by simp
    have hseen : n.id ∈ seen ↔ ∃ m ∈ (before ++ n :: rest).take before.length, m.id = n.id := by
      rw [told, List.take_left]
    have hnext : ∀ id, (∃ m ∈ before ++ [n], m.id = id) ↔ id ∈ n.id :: seen := by
      intro id
      rw [List.mem_cons, told, or_comm]
      simp [or_and_right, exists_or, eq_comm]
    rw [duplicateFindings, List.zipIdx_cons, List.filter_cons, hlength]
    by_cases hold : n.id ∈ seen
    · have hsame : ∀ id, id ∈ seen ↔ id ∈ n.id :: seen := by
        intro id
        rw [List.mem_cons, or_iff_right_of_imp]
        rintro rfl
        exact hold
      rw [if_pos hold, if_pos (by simpa using hseen.1 hold), List.map_cons, hsplit,
        ← ih _ seen fun id => (hsame id).trans (hnext id).symm]
    · rw [if_neg hold, if_neg (by simpa using mt hseen.2 hold), hsplit,
        ← ih _ _ fun id => (hnext id).symm]

theorem duplicateFindings_nodes (flow : Flow) :
    duplicateFindings [] flow.nodes = flow.repeated.map fun n => .duplicateNode n.id := by
  rw [duplicateFindings_eq [] flow.nodes [] (by simp), repeated, List.map_map]
  rfl

theorem triggerFindings_eq (flow : Flow) : flow.triggerFindings =
    if ∃ n ∈ flow.nodes, n.IsTrigger then [] else [.noTriggers] := by
  simp [triggerFindings, Node.isTrigger_iff]

/-- The findings of an edge. At most one of the last two parts is there, since an edge has a handle
or has none. -/
theorem edgeFindings_eq (flow : Flow) (e : Edge) : edgeFindings (.ofFlow flow) e =
    (if e.Resolves flow then [] else [.invalidEdge e.id e.source e.target]) ++
    (if e.Unhandled flow then [.missingBranchHandle e.id e.source] else []) ++
    (e.foreignHandle? flow).toList.map (.unknownBranchHandle e.id e.source) := by
  have hends : ((flow.node? e.source).isNone || (flow.node? e.target).isNone) = true ↔
      ¬ e.Resolves flow := by
    rw [Bool.or_eq_true, isNone_node?, isNone_node?, Edge.Resolves, not_and_or]
  simp only [edgeFindings, Graph.node?_ofFlow, hends, ite_not, List.append_assoc]
  congr 1
  have hnone : flow.branches? e.source = none →
      (if e.Unhandled flow then [Finding.missingBranchHandle e.id e.source] else []) ++
        (e.foreignHandle? flow).toList.map (.unknownBranchHandle e.id e.source) = [] := by
    intro h
    simp [Edge.Unhandled, Edge.foreignHandle?, h]
  cases hsource : flow.node? e.source with
  | none => exact (hnone (by simp [branches?, hsource])).symm
  | some n =>
    cases hbody : n.body with
    | «switch» branches =>
      have hbranches : flow.branches? e.source = some branches := by
        simp [branches?, hsource, Node.branches?, hbody]
      simp only [Option.map_some, hbody]
      cases hhandle : e.sourceHandle with
      | none => simp [Edge.Unhandled, Edge.foreignHandle?, hbranches, hhandle]
      | some handle =>
        by_cases hown : ∃ b ∈ branches, b.id = handle
        · simp [Edge.Unhandled, Edge.foreignHandle?, hbranches, hhandle, hown]
        · have hforeign : ∀ b ∈ branches, b.id ≠ handle := fun b hb h => hown ⟨b, hb, h⟩
          have hkept : e.foreignHandle? flow = some handle := by
            rw [Edge.foreignHandle?, hhandle, Option.filter_eq_some_iff]
            simpa [hbranches] using hforeign
          simp [Edge.Unhandled, hkept, hhandle, hown]
    | _ =>
      simp only [Option.map_some, hbody]
      exact (hnone (by simp [branches?, hsource, Node.branches?, hbody])).symm

theorem nodeFindings_eq (flow : Flow) (n : Node) : nodeFindings (.ofFlow flow) n =
    if n.IsTrigger then [] else
      (if n.EmptySwitch then [.emptySwitch n.id] else []) ++
      (if n.ZeroWait then [.zeroWait n.id] else []) ++
      if flow.Enters n.id then [] else [.orphanNode n.id] := by
  have horphan : ((Graph.ofFlow flow).incoming n.id).isEmpty = true ↔ ¬ flow.Enters n.id := by
    rw [Graph.incoming_ofFlow, List.isEmpty_iff, List.filter_eq_nil_iff]
    simp [Enters]
  simp only [nodeFindings, horphan, ite_not]
  by_cases htrigger : n.IsTrigger
  · rw [if_pos htrigger, if_pos (n.isTrigger_iff.2 htrigger)]
  rw [if_neg htrigger, if_neg (mt n.isTrigger_iff.1 htrigger)]
  congr 1
  cases hbody : n.body with
  | «switch» branches =>
    cases branches <;> simp [Node.EmptySwitch, Node.ZeroWait, Node.branches?, Node.wait?, hbody]
  | wait w =>
    simp [Node.EmptySwitch, Node.ZeroWait, Node.branches?, Node.wait?, hbody,
      Wait.totalHours_eq_zero]
  | _ => simp [Node.EmptySwitch, Node.ZeroWait, Node.branches?, Node.wait?, hbody]

theorem repeated_eq_nil_iff (flow : Flow) :
    flow.repeated = [] ↔ (flow.nodes.map Node.id).Nodup := by
  rw [repeated, List.map_eq_nil_iff, List.filter_eq_nil_iff, List.Nodup, List.pairwise_map,
    List.pairwise_iff_getElem]
  constructor
  · intro h i k hi hk hlt hsame
    have hmem : (flow.nodes[k], k) ∈ flow.nodes.zipIdx := by
      simp [List.mem_zipIdx_iff_getElem?]
    have hold : flow.nodes[i] ∈ flow.nodes.take k := List.mem_take_iff_getElem.2 ⟨i, by omega, rfl⟩
    exact h _ hmem (by simpa using ⟨_, hold, hsame⟩)
  · rintro h ⟨n, k⟩ hmem hold
    obtain ⟨hk, hn : flow.nodes[k] = n⟩ :=
      List.getElem?_eq_some_iff.1 (List.mem_zipIdx_iff_getElem?.1 hmem)
    obtain ⟨m, hm, hsame⟩ := of_decide_eq_true hold
    obtain ⟨i, hi, rfl⟩ := List.mem_take_iff_getElem.1 hm
    exact h i k (by omega) hk (by omega) (hsame.trans (congrArg Node.id hn.symm))

/-- The edges of a flow have no findings if each of them has none of the three defects. -/
theorem edgeFindings_eq_nil_iff (flow : Flow) (e : Edge) : edgeFindings (.ofFlow flow) e = [] ↔
    e.Resolves flow ∧ ∀ branches ∈ flow.branches? e.source,
      ∃ b ∈ branches, e.sourceHandle = some b.id := by
  rw [edgeFindings_eq, List.append_eq_nil_iff, List.append_eq_nil_iff, List.map_eq_nil_iff]
  cases hbranches : flow.branches? e.source with
  | none => simp [Edge.Unhandled, Edge.foreignHandle?, hbranches]
  | some branches =>
    cases hhandle : e.sourceHandle with
    | none => simp [Edge.Unhandled, Edge.foreignHandle?, hbranches, hhandle]
    | some handle =>
      simp [Edge.Unhandled, Edge.foreignHandle?, hbranches, hhandle, @eq_comm _ handle]

theorem nodeFindings_eq_nil_iff (flow : Flow) (n : Node) : nodeFindings (.ofFlow flow) n = [] ↔
    ¬ n.EmptySwitch ∧ ¬ n.ZeroWait ∧ (¬ n.IsTrigger → flow.Enters n.id) := by
  rw [nodeFindings_eq]
  by_cases htrigger : n.IsTrigger
  · have hswitch : ¬ n.EmptySwitch := by
      rintro ⟨branches, hbranches, -⟩
      simp [Node.branches?_of_isTrigger htrigger] at hbranches
    have hwait : ¬ n.ZeroWait := by
      rintro ⟨w, hw, -⟩
      simp [Node.wait?_of_isTrigger htrigger] at hw
    simp [htrigger, hswitch, hwait]
  · simp [htrigger]

/-- The check of a flow finds nothing if and only if the flow is clean. -/
theorem check_eq_nil_iff (flow : Flow) : flow.check = [] ↔ flow.Clean := by
  simp only [check, List.append_eq_nil_iff, List.flatMap_eq_nil_iff, duplicateFindings_nodes,
    List.map_eq_nil_iff, repeated_eq_nil_iff, triggerFindings_eq, edgeFindings_eq_nil_iff,
    nodeFindings_eq_nil_iff, ite_eq_left_iff, List.cons_ne_nil, imp_false, not_not]
  constructor
  · rintro ⟨⟨⟨hdistinct, htrigger⟩, hedges⟩, hnodes⟩
    exact ⟨hdistinct, htrigger, fun e he => (hedges e he).1, fun e he => (hedges e he).2,
      fun n hn => (hnodes n hn).1, fun n hn => (hnodes n hn).2.1, fun n hn => (hnodes n hn).2.2⟩
  · intro h
    exact ⟨⟨⟨h.distinct, h.triggered⟩, fun e he => ⟨h.resolves e he, h.handled e he⟩⟩,
      fun n hn => ⟨h.branching n hn, h.lasting n hn, h.entered n hn⟩⟩

/-- The check lists the defects of a flow, each one once and in this order, and it finds nothing if
and only if the flow is clean. -/
theorem check_exact (flow : Flow) :
    flow.check =
      flow.repeated.map (fun n => .duplicateNode n.id) ++
      (if ∃ n ∈ flow.nodes, n.IsTrigger then [] else [.noTriggers]) ++
      (flow.edges.flatMap fun e =>
        (if e.Resolves flow then [] else [.invalidEdge e.id e.source e.target]) ++
        (if e.Unhandled flow then [.missingBranchHandle e.id e.source] else []) ++
        (e.foreignHandle? flow).toList.map (.unknownBranchHandle e.id e.source)) ++
      (flow.nodes.flatMap fun n => if n.IsTrigger then [] else
        (if n.EmptySwitch then [.emptySwitch n.id] else []) ++
        (if n.ZeroWait then [.zeroWait n.id] else []) ++
        if flow.Enters n.id then [] else [.orphanNode n.id]) ∧
    (flow.check = [] ↔ flow.Clean) := by
  have hedges : edgeFindings (.ofFlow flow) = fun e => _ := funext flow.edgeFindings_eq
  have hnodes : nodeFindings (.ofFlow flow) = fun n => _ := funext flow.nodeFindings_eq
  constructor
  · rw [check, duplicateFindings_nodes, triggerFindings_eq, hedges, hnodes]
  · exact flow.check_eq_nil_iff

end Flow

end Dunning
