import Dunning.Proofs.Engine.Forks
import Dunning.Proofs.Engine.Triggers
import Dunning.Proofs.Flow.Findings
import Dunning.Proofs.Walk.Landing
import Dunning.Proofs.Walk.Rounds

/-!
# Runs of clean flows

What the check promises is what the engine relies on. In a clean flow every edge leads to a node
and a matching trigger is the first node of its id, so that no walk comes to an id of no node; what
leaves a switch names one of its branches, and every wait takes some time.
-/
namespace Dunning

open WalkState

/-- Whether an instant lies before another one. -/
def Instant.Precedes (a b : Instant) : Prop := ¬b.le a = true

theorem Instant.precedes_of_seconds {a b : Instant} (h : a.seconds < b.seconds) :
    a.Precedes b := by
  rw [Precedes, le_iff]
  omega

/-- A wait of some length ends after it has begun. -/
theorem Wait.precedes_of_until? {w : Wait} {begun due : Instant} (positive : 0 < w.totalHours)
    (h : w.until? begun = some due) : begun.Precedes due := by
  obtain ⟨hdue, -⟩ := (begun.addHours_spec w.totalHours).2 due h
  apply Instant.precedes_of_seconds
  omega

/-- A graph in which every wait takes some time. -/
def Graph.Lasting (g : Graph) : Prop :=
  ∀ id node, g.node? id = some node → ∀ w, node.body = .wait w → 0 < w.totalHours

theorem Told.precedes_of_mem {j : Journey} {begun : Instant} {steps : List Step}
    {points : List ResumePoint} (h : Told j begun steps points) (lasting : j.graph.Lasting) :
    ∀ p ∈ points, begun.Precedes p.resumeAt := by
  intro p hp
  obtain ⟨node, w, hnode, hbody, hend⟩ := h.exists_wait_of_mem p hp
  exact Wait.precedes_of_until? (lasting p.nodeId node hnode w hbody) hend

namespace Flow.Clean

variable {flow : Flow}

/-- In a clean flow every node is the first one of its id. -/
theorem node?_of_mem (clean : flow.Clean) {n : Node} (h : n ∈ flow.nodes) :
    flow.node? n.id = some n := by
  obtain ⟨first, hfirst, hfound, hid, -⟩ := Flow.exists_node? h
  rw [hfound, List.inj_on_of_nodup_map clean.distinct hfirst h hid]

theorem graph_whole (clean : flow.Clean) : (Graph.ofFlow flow).Whole := by
  intro id e he
  rw [Graph.outgoing_ofFlow] at he
  obtain ⟨n, hn, hid⟩ := (clean.resolves e (List.mem_filter.1 he).1).2
  exact ⟨n, by rw [Graph.node?_ofFlow, ← hid, clean.node?_of_mem hn]⟩

theorem graph_lasting (clean : flow.Clean) : (Graph.ofFlow flow).Lasting := by
  intro id node hnode w hbody
  rw [Graph.node?_ofFlow] at hnode
  have hlasting := clean.lasting node (List.mem_of_find?_eq_some hnode)
  by_contra hzero
  refine hlasting ⟨w, by simp [Node.wait?, hbody], ?_⟩
  omega

/-- What leaves a switch names one of its branches. -/
theorem handled_of_outgoing (clean : flow.Clean) {id : String} {branches : List Branch}
    (fork : flow.branches? id = some branches) :
    ∀ e ∈ (Graph.ofFlow flow).outgoing id, ∃ b ∈ branches, e.sourceHandle = some b.id := by
  intro e he
  rw [Graph.outgoing_ofFlow] at he
  obtain ⟨hedge, hsource⟩ := List.mem_filter.1 he
  exact clean.handled e hedge branches (of_decide_eq_true hsource ▸ fork)

end Flow.Clean

/-- A call that goes from one trip to another along edges that lead to nodes, and comes to no wait
that ends when it begins. The first waits begin at the time of the call, and those of a round at the
time of its point. -/
structure Smooth (j : Journey) (now : Instant) (t₀ t : Trip) : Prop where
  landed : Trip.Landed j.graph t₀ t
  lasting : ∃ (s : WalkState) (steps : List Step) (points : List ResumePoint) (legs : List Leg),
    s.log = t₀.state.log ++ steps ∧ Told j now steps points ∧
      (∀ p ∈ points, now.Precedes p.resumeAt) ∧ Rounds j s legs t.state ∧
      ∀ leg ∈ legs, ∀ p ∈ leg.points, leg.point.resumeAt.Precedes p.resumeAt

/-- A drain makes a call smooth that was so up to its waits. -/
theorem Smooth.drain {j : Journey} (whole : j.graph.Whole) (lasting : j.graph.Lasting)
    {t₀ t : Trip} (landed : Trip.Landed j.graph t₀ t) {steps : List Step}
    {points : List ResumePoint} (adds : Adds j t₀.state steps points t.state) :
    Smooth j t₀.state.now t₀ (t.drain j) := by
  obtain ⟨legs, hrounds, -⟩ := exists_rounds j t.state
  refine ⟨landed.drain whole, t.state, steps, points, legs, adds.log, adds.told,
    adds.told.precedes_of_mem lasting, ?_, fun leg hleg => ?_⟩
  · rwa [Trip.state_drain]
  · exact (hrounds.told leg hleg).precedes_of_mem lasting

theorem Trip.Landed.refl (g : Graph) (t : Trip) : Trip.Landed g t t :=
  ⟨[], [], by simp, by simp, by simp, List.Sublist.refl _, fun _ => List.Sublist.refl _⟩

namespace Engine

variable (e : Engine) (flow : Flow) (event : Event) (mode : Mode) (runId : String) (clock : Instant)

/-- What an execution begins with. -/
def outset : Trip := ⟨.start runId e.settings.maxSteps (e.suspends mode) clock, []⟩

theorem exists_adds_begin : ∃ steps points, Adds ⟨.ofFlow flow, event, mode⟩
    (e.outset mode runId clock).state steps points (e.begin flow event mode runId clock) := by
  simp only [begin]
  split
  · exact exists_adds_record _ _ ⟨rfl, rfl⟩
  · exact exists_adds_walk _ _ _

/-- Up to its waits an execution lands if its triggers are found. -/
theorem landed_setOut (whole : (Graph.ofFlow flow).Whole)
    (found : ∀ n ∈ e.settings.matcher.matching flow event, flow.node? n.id = some n) :
    Trip.Landed (.ofFlow flow) (e.outset mode runId clock)
      (e.setOut flow event mode runId clock) := by
  simp only [setOut]
  split
  · obtain ⟨steps, points, hadds⟩ := e.exists_adds_begin flow event mode runId clock
    exact ⟨steps, [], hadds.log, rfl, by simp, List.nil_sublist _, fun _ => List.nil_sublist _⟩
  · refine Trip.Landed.walk (j := ⟨.ofFlow flow, event, mode⟩) whole (fun a ha => ?_) (.refl _ _)
    obtain ⟨n, hn, rfl⟩ := List.mem_map.1 ha
    exact ⟨n, (Graph.node?_ofFlow flow n.id).trans (found n hn)⟩

end Engine

/-- A flow in which nothing is found never breaks a walk. Its matching triggers are found under
their ids, and every edge that leaves a switch names one of its branches. An execution, and a
resumption of any run, follows no edge but to a node, logs steps at the nodes to which it goes, and
meets only waits that end after they have begun. -/
theorem clean_flow_runs_smoothly {flow : Flow} (clean : flow.check = []) (e : Engine) :
    (∀ event, ∀ n ∈ e.settings.matcher.matching flow event,
      flow.node? n.id = some n ∧ n.IsTrigger) ∧
    (∀ id branches, flow.branches? id = some branches →
      ∀ edge ∈ (Graph.ofFlow flow).outgoing id, ∃ b ∈ branches, edge.sourceHandle = some b.id) ∧
    (∀ event mode runId clock,
      (e.trip flow event mode runId clock).state = e.walkFlow flow event mode runId clock ∧
      Smooth ⟨.ofFlow flow, event, mode⟩ clock (e.outset mode runId clock)
        (e.trip flow event mode runId clock)) ∧
    ∀ (c : Continuation) (now clock : Instant) (followed : List Edge),
      (c.trip e flow now clock followed).state = c.walk e (some flow) now clock ∧
      Smooth (c.journey (some flow)) now ⟨c.start e now clock, followed⟩
        (c.trip e flow now clock followed) := by
  have hclean := flow.check_eq_nil_iff.1 clean
  have htriggers : ∀ event, ∀ n ∈ e.settings.matcher.matching flow event,
      flow.node? n.id = some n ∧ n.IsTrigger := by
    intro event n hn
    obtain ⟨hmem, haccepts⟩ := List.mem_filter.1 hn
    obtain ⟨t, hbody, -⟩ := exists_trigger_of_acceptsNode haccepts
    refine ⟨hclean.node?_of_mem hmem, ?_⟩
    rw [Node.IsTrigger, Node.kind, hbody]
    rfl
  refine ⟨htriggers, fun id branches => hclean.handled_of_outgoing,
    fun event mode runId clock => ?_, fun c now clock followed => ?_⟩
  · refine ⟨e.state_trip flow event mode runId clock, ?_⟩
    have hlanded := e.landed_setOut flow event mode runId clock hclean.graph_whole fun n hn =>
      (htriggers event n hn).1
    obtain ⟨steps, points, hadds⟩ := e.exists_adds_begin flow event mode runId clock
    rw [← e.state_setOut] at hadds
    exact Smooth.drain hclean.graph_whole hclean.graph_lasting hlanded hadds
  · refine ⟨c.state_trip e flow now clock followed, ?_⟩
    let j := c.journey (some flow)
    let start : Trip := ⟨c.start e now clock, followed⟩
    have hlanded : Trip.Landed j.graph start (start.goOn j c.due) :=
      .goOn hclean.graph_whole (.refl j.graph start) c.due
    obtain ⟨steps, points, hadds⟩ := exists_adds_foldl j c.due start.state
    rw [← Trip.state_goOn] at hadds
    exact Smooth.drain hclean.graph_whole hclean.graph_lasting hlanded hadds

namespace turnstile

theorem check_eq_nil : turnstile.check = [] := by cbv

theorem ids_followed : (Engine.numbered.trip turnstile event .live "run1" .epoch).followed.map
    Edge.id = ["ts", "sw"] := by
  cbv

end turnstile

open turnstile in
/-- The execution goes to the switch and along its second branch to the wait. -/
theorem clean_flow_runs_smoothly_turnstile : turnstile.check = [] ∧
    Smooth ⟨.ofFlow turnstile, event, .live⟩ .epoch (Engine.numbered.outset .live "run1" .epoch)
      (Engine.numbered.trip turnstile event .live "run1" .epoch) ∧
    (Engine.numbered.trip turnstile event .live "run1" .epoch).followed.map Edge.id =
      ["ts", "sw"] := by
  obtain ⟨-, -, hexecuted, -⟩ := clean_flow_runs_smoothly check_eq_nil Engine.numbered
  exact ⟨check_eq_nil, (hexecuted event .live "run1" .epoch).2, ids_followed⟩

end Dunning
