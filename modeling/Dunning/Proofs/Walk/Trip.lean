import Dunning.Proofs.Flow.Graph
import Dunning.Proofs.Walk.Calls
import Dunning.Proofs.Walk.Reach

/-!
# The edges that a walk follows

A trip is a walk that also keeps a list of the edges along which it goes. Its state is that
of the walk, step by step. Of the edges that leave a switch a trip follows none but the one
that the switch goes on along, and that one once.
-/
namespace Dunning

/-- How a walk comes to a node: it starts there, or an edge leads it there. -/
inductive Arrival where
  | start (id : String)
  | along (edge : Edge)

namespace Arrival

def nodeId : Arrival → String
  | start id => id
  | along edge => edge.target

def edge? : Arrival → Option Edge
  | start _ => none
  | along edge => some edge

end Arrival

namespace Journey

/-- The edges along which a walk goes on from a node that it enters. -/
def onwardEdges (j : Journey) (id : String) (node : Node) : List Edge := j.activeEdges true id node

theorem map_target_onwardEdges (j : Journey) (id : String) (node : Node) :
    (j.onwardEdges id node).map Edge.target = j.onward id node := by
  simp only [onwardEdges, activeEdges, onward]
  cases node.body with
  | «switch» branches => exact (j.branchTargets_eq id branches).symm
  | _ => rfl

end Journey

/-- A walk and the edges that it has followed. -/
structure Trip where
  state : WalkState
  followed : List Edge

namespace Trip

open WalkState

/-- Go along edges, or start, in order, and on from each node that is new. -/
def walk (j : Journey) (agenda : List Arrival) (t : Trip) : Trip :=
  match agenda with
  | [] => t
  | a :: rest =>
      if t.state.truncated then t
      else
        let followed := t.followed ++ a.edge?.toList
        match _found : j.graph.node? a.nodeId with
        | none => walk j rest ⟨t.state, followed⟩
        | some node =>
            if _new : a.nodeId ∈ t.state.visited then
              walk j rest ⟨t.state.record (t.state.nodeStep a.nodeId node .skipped
                "Already visited in this run; path stopped"), followed⟩
            else
              walk j ((j.onwardEdges a.nodeId node).map .along ++ rest)
                ⟨((t.state.visit a.nodeId).enter j a.nodeId node).1, followed⟩
termination_by (t.state.unvisited j.graph, agenda.length)
decreasing_by
  · exact Prod.Lex.right _ (Nat.lt_succ_self _)
  · simp only [unvisited, record_visited]
    exact Prod.Lex.right _ (Nat.lt_succ_self _)
  · refine Prod.Lex.left _ _ ?_
    simp only [unvisited, enter_visited, visit_visited]
    exact countP_visit_lt _ _ _ node _found _new

/-- The list of edges makes no difference to the walk. -/
theorem state_walk (j : Journey) (agenda : List Arrival) (t : Trip) :
    (t.walk j agenda).state = t.state.walk j (agenda.map Arrival.nodeId) := by
  fun_induction walk j agenda t with
  | case1 t => rw [List.map_nil, WalkState.walk]
  | case2 t a rest h => rw [walk_of_truncated j _ h]
  | case3 t a rest h followed found ih =>
    rw [ih, List.map_cons, WalkState.walk_eq, WalkState.walk_eq, Journey.course_of_missing found]
  | case4 t a rest h followed node found old ih =>
    rw [ih, List.map_cons, WalkState.walk_eq, WalkState.walk_eq,
      Journey.course_of_visited found _ old, performAll_cons, record_visited]
    rfl
  | case5 t a rest h followed node found new ih =>
    have hids : ((j.onwardEdges a.nodeId node).map Arrival.along ++ rest).map Arrival.nodeId =
        j.onward a.nodeId node ++ rest.map Arrival.nodeId := by
      rw [← j.map_target_onwardEdges a.nodeId node, List.map_append, List.map_map]
      rfl
    have hvisit : t.state.perform j (.visit a.nodeId) = t.state.visit a.nodeId := by
      simp [perform, h]
    rw [ih, hids, WalkState.walk_eq, enter_visited, visit_visited, enter_eq, List.map_cons,
      WalkState.walk_eq, Journey.course_of_new found _ new, performAll_cons, hvisit,
      performAll_append]

/-- Go along the edges that leave a node. -/
def behind (j : Journey) (id : String) (t : Trip) : Trip :=
  t.walk j ((j.graph.outgoing id).map .along)

theorem state_behind (j : Journey) (id : String) (t : Trip) :
    (t.behind j id).state = t.state.walkDownstream j id := by
  rw [behind, state_walk, List.map_map]
  rfl

/-- Go on behind points in order. -/
def goOn (j : Journey) (points : List ResumePoint) (t : Trip) : Trip :=
  points.foldl (fun t p => t.behind j p.nodeId) t

theorem state_goOn (j : Journey) (points : List ResumePoint) (t : Trip) :
    (t.goOn j points).state = points.foldl (fun s p => s.walkDownstream j p.nodeId) t.state := by
  induction points generalizing t with
  | nil => rfl
  | cons p rest ih => exact (ih _).trans (by rw [state_behind, List.foldl_cons])

/-- Go on behind every deferred wait, the earliest first. -/
def drain (j : Journey) (t : Trip) : Trip :=
  if t.state.truncated then t
  else match _found : takeEarliest t.state.deferred with
    | none => t
    | some (point, others) =>
        drain j (behind j point.nodeId
          ⟨{ t.state with deferred := others, now := point.resumeAt }, t.followed⟩)
termination_by t.state.load j.graph
decreasing_by
  rw [state_behind]
  refine Nat.lt_of_le_of_lt (load_walk_le j _ _) ?_
  simp only [load, unvisited]
  have := takeEarliest_length _found
  omega

theorem state_drain (j : Journey) (t : Trip) : (t.drain j).state = t.state.drain j := by
  fun_induction drain j t with
  | case1 t cut => exact (drain_of_truncated j cut).symm
  | case2 t going done => exact (drain_of_deferred_nil j (takeEarliest_eq_none done)).symm
  | case3 t going point others found ih =>
    rw [ih, state_behind, ← drain_of_earliest j (Bool.eq_false_iff.2 going) found]

end Trip

namespace WalkState

/-- A state whose points, pending or deferred, are at waits. -/
def AtWaits (j : Journey) (s : WalkState) : Prop :=
  ∀ p ∈ s.pending ++ s.deferred, j.isWait p.nodeId = true

theorem isWait_of_mem_points {j : Journey} {m : Move} (fits : m.Fits j.graph) {now : Instant}
    {p : ResumePoint} (h : p ∈ m.points now) : j.isWait p.nodeId = true := by
  cases m with
  | wait id node w =>
    obtain ⟨t, -, rfl⟩ := by simpa [Move.points] using h
    simp [Journey.isWait, fits.1, fits.2]
  | _ => cases h

/-- Walks leave points at waits only. -/
theorem AtWaits.walk {j : Journey} {s : WalkState} (h : AtWaits j s) (agenda : List String) :
    AtWaits j (s.walk j agenda) := by
  rcases walk_cases j agenda s with ⟨-, hsame⟩ | ⟨-, hall⟩ | ⟨-, made, m, rest, -, hcut, -⟩
  · rwa [hsame]
  · rw [hall]
    intro p hp
    have hnew : ∀ q ∈ (j.course agenda s.visited).flatMap (Move.points s.now),
        j.isWait q.nodeId = true := by
      intro q hq
      obtain ⟨m, hm, hq⟩ := List.mem_flatMap.1 hq
      exact isWait_of_mem_points (j.fits_of_mem_course agenda s.visited m hm) hq
    simp only [grown, List.mem_append] at hp
    rcases hp with (hp | hp) | hp | hp
    · exact h p (List.mem_append_left _ hp)
    · split at hp
      · exact hnew p hp
      · cases hp
    · exact h p (List.mem_append_right _ hp)
    · split at hp
      · cases hp
      · exact hnew p hp
  · rw [hcut]
    exact fun p hp => by simp [cut] at hp

theorem AtWaits.record {j : Journey} {s : WalkState} (h : AtWaits j s) (step : Step) :
    AtWaits j (s.record step) := by
  rcases record_cases s step with hsame | hcut | hmore
  · rwa [hsame]
  · rw [hcut]
    exact fun p hp => by simp [cut] at hp
  · rwa [hmore]

/-- Some deferred points may be dropped, and the base time does not matter. -/
theorem AtWaits.retime {j : Journey} {s : WalkState} (h : AtWaits j s) {deferred : List ResumePoint}
    (part : deferred ⊆ s.deferred) (now : Instant) :
    AtWaits j { s with deferred := deferred, now := now } := by
  intro p hp
  refine h p (List.mem_append.2 ?_)
  exact (List.mem_append.1 hp).imp_right fun hdeferred => part hdeferred

/-- The earliest point is one of those deferred, and the others are those that were there with it. -/
theorem mem_of_earliest {points others : List ResumePoint} {p : ResumePoint}
    (h : takeEarliest points = some (p, others)) : p ∈ points ∧ others ⊆ points := by
  obtain ⟨before, behind, rfl, rfl, -⟩ := takeEarliest_eq_some h
  refine ⟨by simp, fun q hq => ?_⟩
  rw [List.mem_append] at hq ⊢
  exact hq.imp_right (List.mem_cons_of_mem p)

theorem AtWaits.drain {j : Journey} {s : WalkState} (h : AtWaits j s) : AtWaits j (s.drain j) := by
  fun_induction WalkState.drain j s with
  | case1 s cut => exact h
  | case2 s going done => exact h
  | case3 s going point others found ih => exact ih ((h.retime (mem_of_earliest found).2 _).walk _)

end WalkState

namespace Journey

theorem onwardEdges_switch (j : Journey) (id : String) {node : Node} {branches : List Branch}
    (body : node.body = .switch branches) :
    j.onwardEdges id node = (j.graph.way j.event id branches).toList := by
  simp only [onwardEdges, activeEdges, body]
  rfl

/-- A walk goes on along edges that leave the node. -/
theorem mem_outgoing_of_mem_onwardEdges {j : Journey} {id : String} {node : Node} {edge : Edge}
    (h : edge ∈ j.onwardEdges id node) : edge ∈ j.graph.outgoing id := by
  unfold onwardEdges activeEdges at h
  split at h
  · exact h
  · exact h
  · cases h
  · obtain ⟨b, -, hedge⟩ := Option.bind_eq_some_iff.1 (Option.mem_toList.1 h)
    exact List.mem_of_find?_eq_some hedge

end Journey

/-- The edges of a list that leave a node. -/
def leaving (id : String) (edges : List Edge) : List Edge := edges.filter fun e => e.source = id

theorem leaving_append (id : String) (edges more : List Edge) :
    leaving id (edges ++ more) = leaving id edges ++ leaving id more := List.filter_append ..

theorem leaving_eq_nil {id : String} {edges : List Edge} (h : ∀ e ∈ edges, e.source ≠ id) :
    leaving id edges = [] :=
  List.filter_eq_nil_iff.2 fun e he => by simpa using h e he

theorem edges_along (edges : List Edge) :
    (edges.map Arrival.along).filterMap Arrival.edge? = edges := by
  simp [List.filterMap_map, Function.comp_def, Arrival.edge?]

namespace Trip

open WalkState

/-- A trip that has followed, and is about to follow, of the edges that leave a switch none but its
way for an event, and that one once and only if it has entered the switch. This is the event of the
journey as long as the switch has not been visited. -/
structure Committed (j : Journey) (id : String) (branches : List Branch) (seen : Event)
    (agenda : List Arrival) (t : Trip) : Prop where
  aware : id ∈ t.state.visited ∨ seen = j.event
  followed : (leaving id (t.followed ++ agenda.filterMap Arrival.edge?)).Sublist
    (if id ∈ t.state.visited then (j.graph.way seen id branches).toList else [])

/-- What is on the agenda has been followed once it is taken from there. -/
theorem followed_cons (followed : List Edge) (a : Arrival) (rest : List Arrival) :
    followed ++ a.edge?.toList ++ rest.filterMap Arrival.edge? =
      followed ++ (a :: rest).filterMap Arrival.edge? := by
  cases h : a.edge? <;> simp [h]

namespace Committed

variable {j : Journey} {id : String} {node : Node} {branches : List Branch} {seen : Event}
  {agenda : List Arrival} {t : Trip}

/-- A trip that stops where it is has followed no more. -/
theorem stop (h : Committed j id branches seen agenda t) : Committed j id branches seen [] t := by
  refine ⟨h.aware, ?_⟩
  have hfollowed := h.followed
  rw [leaving_append] at hfollowed
  rw [List.filterMap_nil, List.append_nil]
  exact (List.sublist_append_left _ _).trans hfollowed

/-- Only an edge that leaves the switch makes a difference. -/
theorem more (h : Committed j id branches seen [] t) {edges : List Edge}
    (others : ∀ e ∈ edges, e.source ≠ id) :
    Committed j id branches seen (edges.map .along) t := by
  refine ⟨h.aware, ?_⟩
  have hfollowed := h.followed
  rw [List.filterMap_nil, List.append_nil] at hfollowed
  rwa [edges_along, leaving_append, leaving_eq_nil others, List.append_nil]

/-- From a node that is new a trip goes on along the edges that its body chooses. -/
theorem enter {a : Arrival} {rest : List Arrival} (sourced : j.graph.Sourced)
    (found : j.graph.node? id = some node) (body : node.body = .switch branches) {other : Node}
    (other_found : j.graph.node? a.nodeId = some other) (new : a.nodeId ∉ t.state.visited)
    (h : Committed j id branches seen (a :: rest) t) :
    Committed j id branches seen ((j.onwardEdges a.nodeId other).map .along ++ rest)
      ⟨((t.state.visit a.nodeId).enter j a.nodeId other).1, t.followed ++ a.edge?.toList⟩ := by
  have hsources : ∀ e ∈ j.onwardEdges a.nodeId other, e.source = a.nodeId := fun e he =>
    sourced _ e (Journey.mem_outgoing_of_mem_onwardEdges he)
  have hfollowed := h.followed
  rw [← followed_cons, leaving_append] at hfollowed
  refine ⟨?_, ?_⟩
  · rw [enter_visited, visit_visited]
    exact h.aware.imp_left (List.mem_cons_of_mem _)
  simp only [List.filterMap_append, edges_along, leaving_append, enter_visited, visit_visited]
    at hfollowed ⊢
  by_cases hid : a.nodeId = id
  · -- The switch is entered here, so that nothing that leaves it was followed or is on the agenda.
    subst hid
    obtain rfl : node = other := Option.some.inj (found.symm.trans other_found)
    obtain rfl := h.aware.resolve_left new
    rw [if_neg new, List.sublist_nil, List.append_eq_nil_iff, List.append_eq_nil_iff] at hfollowed
    rw [hfollowed.1.1, hfollowed.1.2, hfollowed.2, List.nil_append, List.nil_append,
      List.append_nil, if_pos List.mem_cons_self, j.onwardEdges_switch _ body]
    exact List.filter_sublist
  · have hnone : leaving id (j.onwardEdges a.nodeId other) = [] :=
      leaving_eq_nil fun e he => by rwa [hsources e he]
    have hvisited : id ∈ a.nodeId :: t.state.visited ↔ id ∈ t.state.visited := by
      simp [Ne.symm hid]
    rw [hnone, List.nil_append]
    simpa only [hvisited] using hfollowed

variable (sourced : j.graph.Sourced) (found : j.graph.node? id = some node)
  (body : node.body = .switch branches)
include sourced found body

theorem walk (h : Committed j id branches seen agenda t) :
    Committed j id branches seen [] (t.walk j agenda) := by
  fun_induction Trip.walk j agenda t with
  | case1 t => exact h
  | case2 t a rest cut => exact h.stop
  | case3 t a rest going followed missing ih =>
    exact ih ⟨h.aware, by rw [followed_cons]; exact h.followed⟩
  | case4 t a rest going followed other other_found old ih =>
    refine ih ⟨?_, ?_⟩
    · rw [record_visited]
      exact h.aware
    · rw [followed_cons, record_visited]
      exact h.followed
  | case5 t a rest going followed other other_found new ih =>
    exact ih (h.enter sourced found body other_found new)

/-- Going on behind a wait is going on along edges that leave no switch. -/
theorem behind (h : Committed j id branches seen [] t) {other : String}
    (wait : j.isWait other = true) : Committed j id branches seen [] (t.behind j other) := by
  have hother : other ≠ id := by
    rintro rfl
    simp [Journey.isWait, found, body] at wait
  exact (h.more fun e he => by rwa [sourced other e he]).walk sourced found body

theorem goOn (h : Committed j id branches seen [] t) {points : List ResumePoint}
    (waits : ∀ p ∈ points, j.isWait p.nodeId = true) :
    Committed j id branches seen [] (t.goOn j points) := by
  induction points generalizing t with
  | nil => exact h
  | cons p rest ih =>
    exact ih (h.behind sourced found body (waits p List.mem_cons_self))
      fun q hq => waits q (List.mem_cons_of_mem p hq)

theorem drain (h : Committed j id branches seen [] t) (waits : t.state.AtWaits j) :
    Committed j id branches seen [] (t.drain j) := by
  fun_induction Trip.drain j t with
  | case1 t cut => exact h
  | case2 t going done => exact h
  | case3 t going point others earliest ih =>
    obtain ⟨hpoint, hothers⟩ := mem_of_earliest earliest
    have hwait : j.isWait point.nodeId = true := waits point (List.mem_append_right _ hpoint)
    have hmoved : Committed j id branches seen []
        ⟨{ t.state with deferred := others, now := point.resumeAt }, t.followed⟩ :=
      ⟨h.aware, h.followed⟩
    refine ih (hmoved.behind sourced found body hwait) ?_
    rw [state_behind]
    exact (waits.retime hothers _).walk _

end Committed

end Trip

end Dunning
