import Dunning.Proofs.Engine.Draft
import Dunning.Proofs.Flow.Graph
import Dunning.Proofs.Walk.Census
import Dunning.Proofs.Walk.Trail

/-!
# Triggers that start a run

An execution walks from the id of every trigger that matches its event, in node order.
Whatever it does, it does where active edges lead from such an id. A trigger that stands in
the middle of a flow is told of whenever a walk comes to it, whether it matches or not.
-/
namespace Dunning

open WalkState

/-- Whether more than one node of a flow has an id. -/
def Flow.Repeats (flow : Flow) (id : String) : Prop := 1 < (flow.nodes.map Node.id).count id

/-- Under the id of a node stands the node itself, unless the id is repeated. -/
theorem Flow.exists_node? {flow : Flow} {node : Node} (h : node ∈ flow.nodes) :
    ∃ first ∈ flow.nodes, flow.node? node.id = some first ∧ first.id = node.id ∧
      (first = node ∨ flow.Repeats node.id) := by
  obtain ⟨first, hfirst⟩ : ∃ first, flow.node? node.id = some first := by
    refine Option.isSome_iff_exists.1 (List.find?_isSome.2 ⟨node, h, ?_⟩)
    simp
  obtain ⟨hid, before, after, hsplit, hbefore⟩ := List.find?_eq_some_iff_append.1 hfirst
  have hsame : first.id = node.id := by simpa using hid
  refine ⟨first, hsplit ▸ by simp, hfirst, hsame, ?_⟩
  rw [hsplit] at h
  rcases List.mem_append.1 h with h | h
  · exact absurd (hbefore node h) (by simp)
  · rcases List.mem_cons.1 h with h | h
    · exact .inl h.symm
    · right
      have hlater := List.count_pos_iff.2 (List.mem_map_of_mem (f := Node.id) h)
      rw [Flow.Repeats, hsplit, List.map_append, List.map_cons, hsame, List.count_append,
        List.count_cons_self]
      omega

/-- What is reached from several starts is reached from one of them. -/
theorem Journey.Reached.exists_start {j : Journey} {stops : Bool} {starts : List String}
    {id : String} (h : j.Reached stops starts id) : ∃ start ∈ starts, j.Reached stops [start] id := by
  induction h with
  | start h =>
    obtain ⟨hstart, hnode⟩ := mem_present.1 h
    exact ⟨_, hstart, .start (mem_present.2 ⟨List.mem_singleton_self _, hnode⟩)⟩
  | follow _ h ih =>
    obtain ⟨start, hstart, hreached⟩ := ih
    exact ⟨start, hstart, .follow hreached h⟩

/-- A walk that begins at the id of a trigger. It enters the first node with this id, unless that one
was visited before or there is no room. The node is the trigger itself, unless its id is
repeated, and then the type is told that the event has. -/
structure BeginsAt (j : Journey) (flow : Flow) (trigger : Node) (s : WalkState) : Prop where
  cut : s.truncated = true → s.walk j [trigger.id] = s
  visited : s.truncated = false → trigger.id ∈ s.visited → ∃ node, flow.node? trigger.id = some node ∧
    s.walk j [trigger.id] = s.record (s.nodeStep trigger.id node .skipped
      "Already visited in this run; path stopped")
  full : s.truncated = false → trigger.id ∉ s.visited → s.maxSteps ≤ s.log.length →
    (s.walk j [trigger.id]).truncated = true ∧
      (s.walk j [trigger.id]).log = s.log ++ [s.limitStep trigger.id]
  entered : s.truncated = false → trigger.id ∉ s.visited → s.log.length < s.maxSteps →
    ∃ node step, flow.node? trigger.id = some node ∧ (node = trigger ∨ flow.Repeats trigger.id) ∧
      s.log ++ [step] <+: (s.walk j [trigger.id]).log ∧ step.nodeId = trigger.id ∧
      trigger.id ∈ (s.walk j [trigger.id]).visited ∧
      (node = trigger → step = s.nodeStep trigger.id trigger .evaluated
        ("Trigger matched: " ++ j.event.eventType))

/-- An accepted node is a trigger of the type of the event. -/
theorem exists_trigger_of_acceptsNode {matcher : Matcher} {event : Event} {node : Node}
    (h : matcher.acceptsNode event node = true) :
    ∃ t, node.body = .trigger t ∧ t.type.name = event.eventType := by
  unfold Matcher.acceptsNode at h
  split at h
  · rename_i t hbody
    simp only [Matcher.accepts, Bool.and_eq_true, beq_iff_eq] at h
    exact ⟨t, hbody, h.1⟩
  · cases h

/-- Every walk from a matching trigger begins at it. -/
theorem beginsAt_of_matching {matcher : Matcher} {flow : Flow} {event : Event} {mode : Mode}
    {trigger : Node} (h : trigger ∈ matcher.matching flow event) (s : WalkState) :
    BeginsAt ⟨.ofFlow flow, event, mode⟩ flow trigger s := by
  let j : Journey := ⟨.ofFlow flow, event, mode⟩
  obtain ⟨hmem, haccepts⟩ := List.mem_filter.1 h
  obtain ⟨node, -, hnode, -, hsame⟩ := Flow.exists_node? hmem
  have hfound : j.graph.node? trigger.id = some node := (Graph.node?_ofFlow flow _).trans hnode
  refine ⟨walk_of_truncated j _, fun hopen hold => ⟨node, hnode, ?_⟩, fun hopen hnew hfull => ?_,
    fun hopen hnew hroom => ?_⟩
  · rw [walk_eq, Journey.course_of_visited hfound [] hold, Journey.course_nil]
    rfl
  all_goals
    obtain ⟨m, rest, hentry, hlogs, hid⟩ := j.exists_entryMoves_eq trigger.id node
    have hvisit : s.perform j (.visit trigger.id) = s.visit trigger.id := by
      simp [perform, hopen]
    have hwalk : s.walk j [trigger.id] = ((s.visit trigger.id).perform j m).performAll j
        (rest ++ j.course (j.onward trigger.id node ++ []) (trigger.id :: s.visited)) := by
      rw [walk_eq, Journey.course_of_new hfound [] hnew, performAll_cons, hvisit, hentry,
        List.cons_append, performAll_cons]
  · rcases perform_cases j (s := s.visit trigger.id) hopen m with ⟨-, -, hcut⟩ | ⟨hroom, -⟩
    · rw [hwalk, hcut, performAll_of_truncated j (cut_truncated _ _), hid]
      exact ⟨rfl, rfl⟩
    · rcases hroom with hroom | hsilent
      · exact absurd hfull (Nat.not_le.2 hroom)
      · cases hlogs.symm.trans hsilent
  · rcases perform_cases j (s := s.visit trigger.id) hopen m with ⟨hfull, -, -⟩ | ⟨-, hgrown⟩
    · exact absurd hfull (Nat.not_le.2 hroom)
    obtain ⟨step, hstep⟩ : ∃ step, m.step? j (s.visit trigger.id) = some step :=
      Option.isSome_iff_exists.1 ((Move.isSome_step? j _ m).trans hlogs)
    have hlog : ((s.visit trigger.id).perform j m).log = s.log ++ [step] := by
      rw [hgrown, grown, Move.filterMap_step?_cons, hstep]
      rfl
    refine ⟨node, step, hnode, hsame, ?_, (Move.nodeId_of_step? hstep).trans hid, ?_, ?_⟩
    · rw [hwalk, ← hlog]
      exact log_prefix_performAll j _ _
    · rw [hwalk, ← performAll_cons]
      exact visited_subset_performAll j _ (s.visit trigger.id) List.mem_cons_self
    · rintro rfl
      obtain ⟨t, hbody, htype⟩ := exists_trigger_of_acceptsNode haccepts
      simp only [Journey.entryMoves, hbody, List.cons.injEq] at hentry
      obtain ⟨rfl, -⟩ := hentry
      rw [← htype]
      exact (Option.some.inj hstep).symm

namespace Engine

variable (e : Engine) (flow : Flow) (event : Event) (mode : Mode) (source : RunSource) (runId : String)
  (clock : Instant)

/-- The state after the walks from some triggers, one after the other. -/
def walksFrom (triggers : List Node) : WalkState :=
  triggers.foldl (fun s trigger => s.walk ⟨.ofFlow flow, event, mode⟩ [trigger.id])
    (.start runId e.settings.maxSteps (e.suspends mode) clock)

/-- An execution follows the graph from the ids of the triggers. -/
theorem onTrail_walkFlow : OnTrail ⟨.ofFlow flow, event, mode⟩ (e.suspends mode)
    ((e.settings.matcher.matching flow event).map Node.id)
    (e.walkFlow flow event mode runId clock) := by
  let start := WalkState.start runId e.settings.maxSteps (e.suspends mode) clock
  have hsuspends : start.suspends mode = e.suspends mode := by
    cases mode <;> simp [start, WalkState.suspends, WalkState.start, suspends, Mode.isLive]
  have hstart : OnTrail ⟨.ofFlow flow, event, mode⟩ (e.suspends mode)
      ((e.settings.matcher.matching flow event).map Node.id) start :=
    ⟨.nil, hsuspends, by simp [start, WalkState.start]⟩
  rw [walkFlow_eq]
  refine OnTrail.drain ?_
  simp only [begin]
  split
  · rcases record_cases start (start.step flow.id none .skipped
      ("No trigger matches event '" ++ event.eventType ++ "'")) with h | h | h <;> rw [h]
    · exact hstart
    · exact hstart.cut _
    · exact ⟨hstart.trail.concat _ (fun hkind => by cases hkind), hsuspends, hstart.deferred⟩
  · exact hstart.walk _ fun _ id hid => .inl hid

/-- Behind the matching triggers the walks of an execution are drained. -/
theorem walkFlow_eq_walksFrom (matched : e.settings.matcher.matching flow event ≠ []) :
    e.walkFlow flow event mode runId clock =
      (e.walksFrom flow event mode runId clock (e.settings.matcher.matching flow event)).drain
        ⟨.ofFlow flow, event, mode⟩ := by
  have hsome : ((e.settings.matcher.matching flow event).isEmpty) = false := by simpa using matched
  have hwalk := foldl_walk ⟨.ofFlow flow, event, mode⟩
    ((e.settings.matcher.matching flow event).map Node.id)
    (.start runId e.settings.maxSteps (e.suspends mode) clock)
  rw [List.foldl_map] at hwalk
  rw [walkFlow_eq, begin, if_neg (by simp [hsome]), ← hwalk]
  rfl

/-- What is logged of a node is logged where active edges lead from the id of a matching trigger. -/
theorem reached_of_entered {id : String}
    (h : id ∈ enteredIds (e.walkFlow flow event mode runId clock).log) :
    ∃ trigger ∈ e.settings.matcher.matching flow event,
      (⟨.ofFlow flow, event, mode⟩ : Journey).Reached (e.suspends mode) [trigger.id] id := by
  have htrail := e.onTrail_walkFlow flow event mode runId clock
  obtain ⟨start, hstart, hreached⟩ := (htrail.trail.reached id h).exists_start
  obtain ⟨trigger, htrigger, rfl⟩ := List.mem_map.1 hstart
  exact ⟨trigger, htrigger, hreached⟩

end Engine

/-- A node that is found under the id of a matching trigger matches, unless the id is repeated. -/
theorem accepts_of_start {matcher : Matcher} {flow : Flow} {event : Event} {node : Node}
    {trigger : Trigger} {id : String} (start : id ∈ (matcher.matching flow event).map Node.id)
    (found : flow.node? id = some node) (body : node.body = .trigger trigger) :
    (matcher.accepts trigger event = true ∧ trigger.type.name = event.eventType) ∨
      flow.Repeats id := by
  obtain ⟨matching, hmatching, rfl⟩ := List.mem_map.1 start
  obtain ⟨hmem, haccepts⟩ := List.mem_filter.1 hmatching
  obtain ⟨first, -, hfirst, -, hsame⟩ := Flow.exists_node? hmem
  obtain rfl : node = first := Option.some.inj (found.symm.trans hfirst)
  rcases hsame with rfl | hrepeats
  · obtain ⟨t, hbody, htype⟩ := exists_trigger_of_acceptsNode haccepts
    obtain rfl : trigger = t := NodeBody.trigger.inj (body.symm.trans hbody)
    have haccepts : matcher.accepts trigger event = true := by
      simpa [Matcher.acceptsNode, body] using haccepts
    exact .inl ⟨haccepts, htype⟩
  · exact .inr hrepeats

/-- For every request there is an enqueued step. -/
theorem Draft.Extends.exists_enqueued {d : Draft} {log : List Step} (h : d.Extends log)
    {request : DispatchRequest} (mem : request ∈ d.requests) :
    ∃ step ∈ d.run.log, step.action = .enqueued ∧ step.nodeId = request.nodeId := by
  have hasked := List.count_pos_iff.2 (List.mem_map_of_mem (f := DispatchRequest.nodeId) mem)
  have hlogged : 0 < entries .enqueued request.nodeId d.run.log := by
    rw [h.requests request.nodeId]
    exact Nat.lt_of_lt_of_le hasked (Nat.le_add_left _ _)
  obtain ⟨step, hstep, hof⟩ := List.countP_pos_iff.1 hlogged
  simp only [Step.isOf, Bool.and_eq_true, beq_iff_eq] at hof
  exact ⟨step, hstep, hof⟩

/-- How triggers set off a run. The walks of an execution begin at the ids of the matching triggers,
and whatever is done is done where active edges lead from one of them. A trigger that is told
of matches the event, unless an edge has led to it from a node told of before or its id is
repeated. -/
structure SetOff (e : Engine) (flow : Flow) (event : Event) (mode : Mode) (d : Draft) : Prop where
  told : ∀ before step after, d.run.log = before ++ step :: after → step.action = .evaluated →
    step.nodeKind = some .trigger → ∃ node ∈ flow.nodes, ∃ trigger, node.id = step.nodeId ∧
      node.body = .trigger trigger ∧ step.detail = "Trigger matched: " ++ trigger.type.name ∧
      ((e.settings.matcher.accepts trigger event = true ∧ trigger.type.name = event.eventType) ∨
        (∃ id ∈ enteredIds before, step.nodeId ∈
          (⟨.ofFlow flow, event, mode⟩ : Journey).ways (e.suspends mode) id) ∨
        flow.Repeats step.nodeId)
  walks : e.settings.matcher.matching flow event ≠ [] → d.run.log =
    ((e.walksFrom flow event mode d.run.id d.run.startedAt
      (e.settings.matcher.matching flow event)).drain ⟨.ofFlow flow, event, mode⟩).log
  begins : ∀ before trigger after,
    e.settings.matcher.matching flow event = before ++ trigger :: after →
    BeginsAt ⟨.ofFlow flow, event, mode⟩ flow trigger
      (e.walksFrom flow event mode d.run.id d.run.startedAt before)
  downstream : ∀ step ∈ d.run.log, step.action ≠ .skipped →
    ∃ trigger ∈ e.settings.matcher.matching flow event,
      (⟨.ofFlow flow, event, mode⟩ : Journey).Reached (e.suspends mode) [trigger.id] step.nodeId
  requested : ∀ request ∈ d.requests, ∃ trigger ∈ e.settings.matcher.matching flow event,
    (⟨.ofFlow flow, event, mode⟩ : Journey).Reached (e.suspends mode) [trigger.id] request.nodeId

/-- Every execution is set off by the triggers that match its event. -/
theorem setOff_of_draft (e : Engine) (flow : Flow) (event : Event) (mode : Mode) (source : RunSource)
    (runId : String) (clock : Instant) : SetOff e flow { event with orgId := flow.orgId } mode
      (e.draft flow event mode source runId clock) := by
  let d := e.draft flow event mode source runId clock
  let told : Event := { event with orgId := flow.orgId }
  have hextends : d.Extends [] := e.draft_extends flow event mode source runId clock
  have htrail := (e.onTrail_walkFlow flow told mode runId clock).trail
  have hdownstream : ∀ step ∈ d.run.log, step.action ≠ .skipped →
      ∃ trigger ∈ e.settings.matcher.matching flow told,
        (⟨.ofFlow flow, told, mode⟩ : Journey).Reached (e.suspends mode) [trigger.id] step.nodeId := by
    intro step hstep haction
    have hkinded := hextends.once.kinded step hstep haction
    exact e.reached_of_entered flow told mode runId clock
      (List.mem_map.2 ⟨step, List.mem_filter.2 ⟨hstep, hkinded⟩, rfl⟩)
  refine ⟨fun before step after hsplit haction hkind => ?_, fun hsome => ?_,
    fun before trigger after hsplit => ?_, hdownstream, fun request hrequest => ?_⟩
  · have hfollows := htrail.follows hsplit (by rw [hkind]; rfl)
    obtain ⟨node, t, hnode, hbody, hdetail⟩ := hfollows.tells haction hkind
    rw [Graph.node?_ofFlow] at hnode
    have hid : node.id = step.nodeId := by simpa using List.find?_some hnode
    refine ⟨node, List.mem_of_find?_eq_some hnode, t, hid, hbody, hdetail, ?_⟩
    rcases hfollows.arrives with hstart | hway
    · exact (accepts_of_start (Journey.mem_present.1 hstart).1 hnode hbody).imp_right .inr
    · exact .inr (.inl hway)
  · exact congrArg WalkState.log (e.walkFlow_eq_walksFrom flow told mode runId clock hsome)
  · exact beginsAt_of_matching (by rw [hsplit]; simp) _
  · obtain ⟨step, hstep, haction, hnode⟩ := hextends.exists_enqueued hrequest
    rw [← hnode]
    exact hdownstream step hstep (by rw [haction]; decide)

/-- A trigger behind another one, and an enrollment that has taken the id of a third. -/
def crossed : Flow where
  id := "crossed"
  orgId := "acme"
  name := "Crossed"
  status := .active
  nodes := [.atOrigin "x" (.enroll ⟨"dunning", ""⟩), .atOrigin "x" (.trigger ⟨.paymentFailed, .none⟩),
    .atOrigin "t" (.trigger ⟨.paymentFailed, .none⟩),
    .atOrigin "u" (.trigger ⟨.invoiceOverdue, .none⟩)]
  edges := [.plain "tu" "t" "u"]
  deletedAt := none

/-- The log tells of a trigger that does not match, and of an enrollment with no trigger before it. -/
theorem told_without_match :
    (Engine.numbered.draft crossed (.ofTrigger "acme" .paymentFailed) .live .manual "run1"
      .epoch).run.log.map (fun step => (step.nodeId, step.nodeKind, step.action, step.detail)) =
      [("x", some .enroll, .enqueued, "Enrollment in sequence 'dunning' enqueued"),
        ("t", some .trigger, .evaluated, "Trigger matched: Payment Failed"),
        ("u", some .trigger, .evaluated, "Trigger matched: Invoice Overdue")] ∧
    ∀ node ∈ crossed.nodes, node.id = "u" → Engine.numbered.settings.matcher.acceptsNode
      (.ofTrigger "acme" .paymentFailed) node = false := by
  refine ⟨by cbv, ?_⟩
  simp [crossed, Node.atOrigin, Matcher.acceptsNode, Matcher.accepts, TriggerType.name,
    Event.ofTrigger, Event.bare]

end Dunning
