import Dunning.Proofs.Walk.Arrival
import Dunning.Proofs.Walk.Trip

/-!
# Trips that land

In a graph whose edges all lead to nodes a trip never comes to an id of no node. Wherever it
arrives it logs a step at once, so that its log tells of the targets of the edges that it follows,
in their order.
-/
namespace Dunning

/-- A graph in which every edge leads to a node. -/
def Graph.Whole (g : Graph) : Prop :=
  ∀ id, ∀ e ∈ g.outgoing id, ∃ node, g.node? e.target = some node

namespace Arrival

theorem target_of_mem {a : Arrival} {e : Edge} (h : e ∈ a.edge?.toList) : e.target = a.nodeId := by
  cases a with
  | start id => cases h
  | along edge => rw [List.mem_singleton.1 h, nodeId]

/-- Where an arrival is told of, its edge is, if it is along one. -/
theorem target_sublist {a : Arrival} {ids : List String} (told : a.nodeId ∈ ids) :
    (a.edge?.toList.map Edge.target).Sublist ids := by
  cases a with
  | start id => exact List.nil_sublist ids
  | along edge => exact List.singleton_sublist.2 told

end Arrival

namespace Trip

open WalkState

/-- A trip that has gone on from another by steps and along edges. All the edges lead to nodes, and
the steps tell of these nodes in the order of the edges. -/
structure Lands (g : Graph) (t₀ t : Trip) (steps : List Step) (edges : List Edge) : Prop where
  log : t.state.log = t₀.state.log ++ steps
  followed : t.followed = t₀.followed ++ edges
  leads : ∀ e ∈ edges, ∃ node, g.node? e.target = some node
  told : (edges.map Edge.target).Sublist (steps.map Step.nodeId)
  entered : t.state.truncated = false → (edges.map Edge.target).Sublist (enteredIds steps)

/-- A trip that has gone on from another over edges that all lead to nodes. -/
def Landed (g : Graph) (t₀ t : Trip) : Prop := ∃ steps edges, Lands g t₀ t steps edges

variable {g : Graph} {j : Journey} {t₀ t : Trip}

/-- The next arrival is at a node, and a step is logged there. -/
theorem Landed.arrive (h : Landed g t₀ t) (going : t.state.truncated = false) {a : Arrival}
    {node : Node} (found : g.node? a.nodeId = some node) {s : WalkState}
    (comes : ∃ steps, ComesTo a.nodeId t.state s steps) :
    Landed g t₀ ⟨s, t.followed ++ a.edge?.toList⟩ := by
  obtain ⟨steps, edges, hlands⟩ := h
  obtain ⟨more, hmore⟩ := comes
  refine ⟨steps ++ more, edges ++ a.edge?.toList, ?_, ?_, ?_, ?_, fun hopen => ?_⟩
  · rw [hmore.log, hlands.log, List.append_assoc]
  · rw [hlands.followed, List.append_assoc]
  · intro e he
    obtain he | he := List.mem_append.1 he
    · exact hlands.leads e he
    · exact ⟨node, (Arrival.target_of_mem he).symm ▸ found⟩
  · rw [List.map_append, List.map_append]
    exact hlands.told.append (Arrival.target_sublist hmore.mem_nodeIds)
  · rw [List.map_append, enteredIds_append]
    exact (hlands.entered going).append (Arrival.target_sublist (hmore.entered hopen))

/-- Where every agenda and every edge leads to nodes, walks keep landing. -/
theorem Landed.walk (whole : j.graph.Whole) {agenda : List Arrival}
    (arrives : ∀ a ∈ agenda, ∃ node, j.graph.node? a.nodeId = some node)
    (h : Landed j.graph t₀ t) : Landed j.graph t₀ (t.walk j agenda) := by
  fun_induction Trip.walk j agenda t with
  | case1 t => exact h
  | case2 t a rest cut => exact h
  | case3 t a rest going followed missing ih =>
    obtain ⟨node, hnode⟩ := arrives a List.mem_cons_self
    cases missing.symm.trans hnode
  | case4 t a rest going followed node found old ih =>
    have hopen := Bool.eq_false_iff.2 going
    have hcomes := exists_comesTo_revisit node hopen old "Already visited in this run; path stopped"
    exact ih (fun b hb => arrives b (List.mem_cons_of_mem a hb)) (h.arrive hopen found hcomes)
  | case5 t a rest going followed node found new ih =>
    have hopen := Bool.eq_false_iff.2 going
    refine ih (fun b hb => ?_) (h.arrive hopen found (exists_comesTo_enter j node hopen))
    obtain hb | hb := List.mem_append.1 hb
    · obtain ⟨e, he, rfl⟩ := List.mem_map.1 hb
      exact whole a.nodeId e (Journey.mem_outgoing_of_mem_onwardEdges he)
    · exact arrives b (List.mem_cons_of_mem a hb)

theorem Landed.behind (whole : j.graph.Whole) (h : Landed j.graph t₀ t) (id : String) :
    Landed j.graph t₀ (t.behind j id) := by
  refine h.walk whole fun a ha => ?_
  obtain ⟨e, he, rfl⟩ := List.mem_map.1 ha
  exact whole id e he

theorem Landed.goOn (whole : j.graph.Whole) (h : Landed j.graph t₀ t) (points : List ResumePoint) :
    Landed j.graph t₀ (t.goOn j points) := by
  induction points generalizing t with
  | nil => exact h
  | cons p rest ih => exact ih (h.behind whole p.nodeId)

theorem Landed.drain (whole : j.graph.Whole) (h : Landed j.graph t₀ t) :
    Landed j.graph t₀ (t.drain j) := by
  fun_induction Trip.drain j t with
  | case1 t cut => exact h
  | case2 t going done => exact h
  | case3 t going point others found ih =>
    refine ih (Landed.behind whole ?_ point.nodeId)
    obtain ⟨steps, edges, hlands⟩ := h
    exact ⟨steps, edges, hlands.log, hlands.followed, hlands.leads, hlands.told, hlands.entered⟩

end Trip

end Dunning
