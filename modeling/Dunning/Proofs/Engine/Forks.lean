import Dunning.Proofs.Engine.Coherent
import Dunning.Proofs.Engine.Schedule
import Dunning.Proofs.Walk.Forks
import Dunning.Proofs.Walk.Trip

/-!
# Switches over a whole run

A run is executed and then resumed from its stored log any number of times, and no node is
entered twice over all of this. So a switch is told of in one block, whichever of the calls
enters it, and the run goes along one of its edges at most. A resumption walks with the event
that it reads from the store, and this is the one that counts if the switch has not been
entered before.
-/
namespace Dunning

open WalkState

namespace Engine

variable (e : Engine) (flow : Flow) (event : Event) (mode : Mode) (runId : String) (clock : Instant)

/-- The trip of an execution up to its waits. -/
def setOut : Trip :=
  let triggers := e.settings.matcher.matching flow event
  if triggers.isEmpty then ⟨e.begin flow event mode runId clock, []⟩
  else Trip.walk ⟨.ofFlow flow, event, mode⟩ (triggers.map fun node => .start node.id)
    ⟨.start runId e.settings.maxSteps (e.suspends mode) clock, []⟩

/-- The trip of an execution. -/
def trip : Trip := (e.setOut flow event mode runId clock).drain ⟨.ofFlow flow, event, mode⟩

theorem state_setOut :
    (e.setOut flow event mode runId clock).state = e.begin flow event mode runId clock := by
  unfold setOut begin
  simp only
  split
  · rfl
  · rw [Trip.state_walk, List.map_map]
    rfl

theorem state_trip :
    (e.trip flow event mode runId clock).state = e.walkFlow flow event mode runId clock := by
  rw [trip, Trip.state_drain, state_setOut, walkFlow_eq]

end Engine

namespace Continuation

/-- The trip of a resumption, behind the edges that were followed before. -/
def trip (c : Continuation) (e : Engine) (flow : Flow) (now clock : Instant)
    (followed : List Edge) : Trip :=
  (Trip.goOn (c.journey (some flow)) c.due ⟨c.start e now clock, followed⟩).drain
    (c.journey (some flow))

theorem state_trip (c : Continuation) (e : Engine) (flow : Flow) (now clock : Instant)
    (followed : List Edge) :
    (c.trip e flow now clock followed).state = c.walk e (some flow) now clock := by
  rw [trip, Trip.state_drain, Trip.state_goOn]
  rfl

end Continuation

/-- Behind the triggers an execution has left points at waits only. -/
theorem Engine.atWaits_begin (e : Engine) (flow : Flow) (event : Event) (mode : Mode) (runId : String)
    (clock : Instant) :
    (e.begin flow event mode runId clock).AtWaits ⟨.ofFlow flow, event, mode⟩ := by
  have hstart : (WalkState.start runId e.settings.maxSteps (e.suspends mode) clock).AtWaits
      ⟨.ofFlow flow, event, mode⟩ := by simp [AtWaits, WalkState.start]
  unfold Engine.begin
  simp only
  split
  · exact hstart.record _
  · exact hstart.walk _

/-- Behind the due points a resumption has left points at waits only. -/
theorem Continuation.atWaits_foldl {c : Continuation} {e : Engine} {flow : Flow}
    {now clock : Instant}
    (waits : ∀ p ∈ c.later, (c.journey (some flow)).isWait p.nodeId = true) :
    (c.due.foldl (fun s p => s.walkDownstream (c.journey (some flow)) p.nodeId)
      (c.start e now clock)).AtWaits (c.journey (some flow)) := by
  refine foldl_of_walk (P := AtWaits _) (fun agenda _ h => h.walk agenda) c.due fun p hp => ?_
  refine waits p ?_
  simpa [Continuation.start, WalkState.withNow, WalkState.ofLog, WalkState.start] using hp

/-- A run that has entered a switch once at most, as the switch goes on for an event, and has followed
of the edges that leave it none but the one that it goes on along, and that one once at most. -/
structure Run.Forks (limit : Nat) (flow : Flow) (id : String) (branches : List Branch)
    (seen : Event) (run : Run) (followed : List Edge) : Prop where
  /-- Only the limit cuts the block. -/
  told : ToldOnce id (forkSteps seen id branches) (flow.forkTarget seen id branches) run.log ∨
    run.status = .truncated ∧ CutInside limit id (forkSteps seen id branches) run.log
  along : (leaving id followed).Sublist (flow.way seen id branches).toList
  /-- Before a switch is entered no edge that leaves it is followed. -/
  fresh : run.status ≠ .truncated → id ∉ enteredIds run.log → leaving id followed = []

section
variable {limit : Nat} {flow : Flow} {id : String} {node : Node} {branches : List Branch}
  {seen : Event}

/-- What holds of a trip and its state holds of the run that is made of them. -/
theorem Run.Forks.of_trip {j : Journey} (graph : j.graph = .ofFlow flow) {t : Trip}
    (forks : t.state.ForksOnce j limit id branches seen)
    (committed : t.Committed j id branches seen []) {run : Run} {mode : Mode}
    (status : run.status = t.state.runStatus mode) (log : run.log = t.state.log) :
    run.Forks limit flow id branches seen t.followed := by
  have htold := forks.told
  have hfollowed := committed.followed
  rw [graph, Graph.forkTarget_ofFlow] at htold
  rw [graph, Graph.way_ofFlow, List.filterMap_nil, List.append_nil] at hfollowed
  refine ⟨?_, ?_, fun huncut hnew => ?_⟩
  · rwa [log, status, runStatus_eq_truncated_iff]
  · split at hfollowed
    · exact hfollowed
    · exact hfollowed.trans (List.nil_sublist _)
  · rw [status] at huncut
    rw [log] at hnew
    rw [if_neg (mt (forks.accounted (truncated_of_runStatus huncut) id).1 hnew)] at hfollowed
    exact List.sublist_nil.1 hfollowed

/-- As long as a run has not entered a switch, the event for which it will is open. -/
theorem Run.Forks.of_new {run : Run} {followed : List Edge}
    (h : run.Forks limit flow id branches seen followed) (uncut : run.status ≠ .truncated)
    (new : id ∉ enteredIds run.log) (event : Event) :
    run.Forks limit flow id branches event followed := by
  have hnone := h.fresh uncut new
  exact ⟨.inl (.never _ new), hnone ▸ List.nil_sublist _, fun _ _ => hnone⟩

variable {e : Engine} (maxSteps : e.settings.maxSteps = limit) (found : flow.node? id = some node)
  (body : node.body = .switch branches)

include found body

/-- An execution goes along one edge of a switch at most, up to its waits and behind them. -/
theorem Engine.committed_trip (e : Engine) (event : Event) (mode : Mode) (runId : String)
    (clock : Instant) : (e.trip flow event mode runId clock).Committed ⟨.ofFlow flow, event, mode⟩ id
      branches event [] := by
  have hfound := (Graph.node?_ofFlow flow id).trans found
  have hsourced := Graph.sourced_ofFlow flow
  refine Trip.Committed.drain hsourced hfound body ?_ ?_
  · unfold Engine.setOut
    simp only
    split
    · exact ⟨.inr rfl, List.nil_sublist _⟩
    · refine Trip.Committed.walk hsourced hfound body ⟨.inr rfl, ?_⟩
      simp [List.filterMap_map, Function.comp_def, Arrival.edge?, leaving]
  · rw [Engine.state_setOut]
    exact e.atWaits_begin flow event mode runId clock

/-- A resumption keeps to the one edge along which the switch has gone on, or goes on now. -/
theorem Continuation.committed_trip (e : Engine) {c : Continuation} (now clock : Instant)
    {followed : List Edge} (uncut : c.run.status ≠ .truncated)
    (waits : ∀ p ∈ c.due ++ c.later, (c.journey (some flow)).isWait p.nodeId = true)
    (aware : id ∈ enteredIds c.run.log ∨ seen = c.run.triggerEvent)
    (forks : c.run.Forks limit flow id branches seen followed) :
    (c.trip e flow now clock followed).Committed (c.journey (some flow)) id branches seen [] := by
  let j := c.journey (some flow)
  have hfound : j.graph.node? id = some node := (Graph.node?_ofFlow flow id).trans found
  have hsourced : j.graph.Sourced := Graph.sourced_ofFlow flow
  have hstart : Trip.Committed j id branches seen [] ⟨c.start e now clock, followed⟩ := by
    refine ⟨aware, ?_⟩
    rw [List.filterMap_nil, List.append_nil]
    split
    · have halong := forks.along
      rwa [← Graph.way_ofFlow] at halong
    · rename_i hnew
      rw [forks.fresh uncut hnew]
  have hgone : (Trip.goOn j c.due ⟨c.start e now clock, followed⟩).Committed j id branches seen [] :=
    hstart.goOn hsourced hfound body fun p hp => waits p (List.mem_append_left _ hp)
  refine hgone.drain hsourced hfound body ?_
  rw [Trip.state_goOn]
  exact c.atWaits_foldl fun p hp => waits p (List.mem_append_right _ hp)

include maxSteps

/-- An execution enters a switch once and goes along one of its edges at most. -/
theorem Engine.forks_draft (event : Event) (mode : Mode) (source : RunSource) (runId : String)
    (clock : Instant) : (e.draft flow event mode source runId clock).run.Forks limit flow id branches
      { event with orgId := flow.orgId }
      (e.trip flow { event with orgId := flow.orgId } mode runId clock).followed := by
  let told : Event := { event with orgId := flow.orgId }
  have hforks : (e.walkFlow flow told mode runId clock).ForksOnce ⟨.ofFlow flow, told, mode⟩ limit id
      branches told :=
    (steady_forksOnce ((Graph.node?_ofFlow flow id).trans found) body).walkFlow
      ⟨maxSteps ▸ withinLimit_start .., fun _ _ => Iff.rfl, .inr rfl, .inl (.never [] List.not_mem_nil)⟩
  have hcommitted := e.committed_trip found body told mode runId clock
  have hstate := e.state_trip flow told mode runId clock
  exact .of_trip rfl (hstate ▸ hforks) hcommitted (congrArg (runStatus · mode) hstate.symm)
    (congrArg WalkState.log hstate.symm)

/-- A resumption enters a switch only if it has not been entered before, and goes along one of its
edges at most. -/
theorem Continuation.forks_draft {c : Continuation} {now clock : Instant} {followed : List Edge}
    (coherent : c.run.Coherent limit) (waiting : c.run.status = .waiting)
    (waits : ∀ p ∈ c.due ++ c.later, (c.journey (some flow)).isWait p.nodeId = true)
    (aware : id ∈ enteredIds c.run.log ∨ seen = c.run.triggerEvent)
    (forks : c.run.Forks limit flow id branches seen followed) :
    (c.draft e (some flow) now clock).run.Forks limit flow id branches seen
      (c.trip e flow now clock followed).followed := by
  let j := c.journey (some flow)
  have huncut : c.run.status ≠ .truncated := by rw [waiting]; decide
  have htold := forks.told.resolve_right fun hcut => huncut hcut.1
  rw [← Graph.forkTarget_ofFlow] at htold
  have hforks : (c.walk e (some flow) now clock).ForksOnce j limit id branches seen :=
    (steady_forksOnce ((Graph.node?_ofFlow flow id).trans found) body).continuation
      ⟨withinLimit_start coherent waiting maxSteps now clock, c.accounted_start e now clock, aware,
        .inl htold⟩
  have hcommitted := c.committed_trip found body e now clock huncut waits aware forks
  have hstate := c.state_trip e flow now clock followed
  exact .of_trip rfl (hstate ▸ hforks) hcommitted (congrArg (runStatus · .live) hstate.symm)
    (congrArg WalkState.log hstate.symm)

end

variable {σ : Type} [Store σ]

/-- The edges followed once a call has come back, behind those followed before. -/
def Engine.followed (e : Engine) (w : Surroundings) (clock : Instant) (runId : String)
    (now : Instant) (flow : Flow) (r : Records σ) (before : List Edge) : List Edge :=
  match e.resumption? w clock runId now r with
  | none => before
  | some call => (call.continuation.trip e flow now clock before).followed

/-- The records and the edges followed over the calls that make a run of a flow. The run is executed
under an id that is not taken, and resumed where the flow is still as it was. In between everything
may change but the run. -/
inductive Travelled (e : Engine) (flow : Flow) (event : Event) (mode : Mode) (runId : String) :
    Records σ → List Edge → Prop where
  | executed (w : Surroundings) (clock : Instant) (source : RunSource) (r : Records σ)
      (name : e.runId (r.named + 1) = runId)
      (fresh : Store.getRun runId r.store = .error (.notFound runId)) (run : Run)
      (written : (e.runFlow w clock flow event mode source r).answer = .ok run) :
      Travelled e flow event mode runId (e.runFlow w clock flow event mode source r).records
        (e.trip flow { event with orgId := flow.orgId } mode runId clock).followed
  | meanwhile {r : Records σ} {followed : List Edge}
      (before : Travelled e flow event mode runId r followed) (r' : Records σ)
      (same : Store.getRun runId r'.store = Store.getRun runId r.store) :
      Travelled e flow event mode runId r' followed
  | resumed {r : Records σ} {followed : List Edge}
      (before : Travelled e flow event mode runId r followed)
      (listed : Store.getFlow flow.orgId flow.id r.store = .ok (some flow)) (w : Surroundings)
      (clock now : Instant) :
      Travelled e flow event mode runId (e.resumeDue w clock runId now none r).records
        (e.followed w clock runId now flow r followed)

/-- A stored run of a flow with the edges that it has followed. Its switch has gone on for the event
that it was executed for, or for this event as the store tells it. -/
structure Run.OneWay (e : Engine) (flow : Flow) (event : Event) (runId id : String)
    (branches : List Branch) (run : Run) (followed : List Edge) : Prop where
  name : run.id = runId
  flowId : run.flowId = flow.id
  orgId : run.orgId = flow.orgId
  coherent : run.Coherent e.settings.maxSteps
  waits : ∀ p ∈ run.pending,
    (⟨.ofFlow flow, run.triggerEvent, .live⟩ : Journey).isWait p.nodeId = true
  forks : ∃ seen, (seen = event ∨ seen = run.triggerEvent) ∧
    run.Forks e.settings.maxSteps flow id branches seen followed

namespace Run.OneWay

variable {e : Engine} {flow : Flow} {event : Event} {runId id : String} {node : Node}
  {branches : List Branch} {run : Run} {followed : List Edge}

/-- It does not matter if the store tells the event differently. -/
theorem of_event (h : Run.OneWay e flow event runId id branches { run with triggerEvent := event }
    followed) : Run.OneWay e flow event runId id branches run followed := by
  obtain ⟨seen, hseen, hforks⟩ := h.forks
  exact ⟨h.name, h.flowId, h.orgId, h.coherent.of_event, h.waits, seen, .inl (or_self_iff.1 hseen),
    hforks.told, hforks.along, hforks.fresh⟩

variable (found : flow.node? id = some node) (body : node.body = .switch branches)
include found body

/-- An execution makes such a run. -/
theorem draft (e : Engine) (event : Event) (mode : Mode) (source : RunSource) (runId : String)
    (clock : Instant) : Run.OneWay e flow { event with orgId := flow.orgId } runId id branches
      (e.draft flow event mode source runId clock).run
      (e.trip flow { event with orgId := flow.orgId } mode runId clock).followed where
  name := rfl
  flowId := rfl
  orgId := rfl
  coherent := Engine.coherent_draft rfl flow event mode source runId clock
  waits p hp := (e.atWaits_begin flow _ mode runId clock).drain p (List.mem_append_left _ hp)
  forks := ⟨_, .inl rfl, Engine.forks_draft rfl found body event mode source runId clock⟩

/-- A resumption makes such a run of such a run. -/
theorem continued (h : Run.OneWay e flow event runId id branches run followed) {c : Continuation}
    {now : Instant} (due : run.continuation now = .ok (some c)) (clock : Instant) :
    Run.OneWay e flow event runId id branches (c.draft e (some flow) now clock).run
      (c.trip e flow now clock followed).followed := by
  obtain ⟨hwaiting, -, hc⟩ := Run.continuation_eq_some_iff.1 due
  obtain rfl : c.run = run := by rw [hc]
  have hlater : ∀ p ∈ c.later, (c.journey (some flow)).isWait p.nodeId = true := fun p hp =>
    h.waits p ((Run.later_sublist due).subset hp)
  have hdue : ∀ p ∈ c.due, (c.journey (some flow)).isWait p.nodeId = true := fun p hp =>
    h.waits p ((Run.mem_due_iff due).1 hp).1
  refine ⟨h.name, h.flowId, h.orgId, c.coherent_draft h.coherent hwaiting rfl _ now clock,
    fun p hp => (c.atWaits_foldl hlater).drain p (List.mem_append_left _ hp), ?_⟩
  have hall : ∀ p ∈ c.due ++ c.later, (c.journey (some flow)).isWait p.nodeId = true := fun p hp =>
    (List.mem_append.1 hp).elim (hdue p) (hlater p)
  obtain ⟨seen, hseen, hforks⟩ := h.forks
  by_cases hentered : id ∈ enteredIds c.run.log
  · exact ⟨seen, hseen, c.forks_draft rfl found body h.coherent hwaiting hall (.inl hentered) hforks⟩
  · -- The switch has not been entered, so that it would go on for the event that was read.
    have huncut : c.run.status ≠ .truncated := by rw [hwaiting]; decide
    exact ⟨c.run.triggerEvent, .inr rfl, c.forks_draft rfl found body h.coherent hwaiting hall
      (.inr rfl) (hforks.of_new huncut hentered _)⟩

end Run.OneWay

section
variable [LawfulStore σ] {e : Engine} {flow : Flow} {event : Event} {mode : Mode} {runId id : String}
  {node : Node} {branches : List Branch} {run : Run} {r : Records σ} {followed : List Edge}

/-- Whenever a run is read, it has gone on from the switch along one way. -/
theorem Travelled.oneWay (h : Travelled e flow event mode runId r followed)
    (found : flow.node? id = some node) (body : node.body = .switch branches)
    (read : Store.getRun runId r.store = .ok run) :
    Run.OneWay e flow { event with orgId := flow.orgId } runId id branches run followed := by
  induction h generalizing run with
  | executed w clock source r name fresh executed written =>
    subst name
    obtain ⟨htold, -⟩ := recorded_of_runFlow fresh written
    obtain ⟨event', -, rfl⟩ := (htold run).1 read
    exact .of_event (.draft found body e event mode source _ clock)
  | meanwhile before r' same ih => exact ih (same.symm.trans read)
  | @resumed r followed before listed w clock now ih =>
    unfold Engine.followed
    cases hcall : e.resumption? w clock runId now r with
    | none =>
      rw [Engine.records_of_resumption_none hcall] at read
      exact ih read
    | some call =>
      obtain ⟨-, stored, -, -, hread, -⟩ := Engine.spec_of_resumption_some hcall
      have hstored := ih hread
      have hholds : Holds flow stored.triggerEvent runId r stored :=
        ⟨listed, hread, hstored.name, hstored.flowId, hstored.orgId, rfl⟩
      obtain ⟨-, hdue, hheld⟩ := hholds.resume hcall
      obtain rfl := Except.ok.inj (hheld.told.symm.trans read)
      exact hstored.continued found body hdue clock

/-- A switch over a whole run. Its steps stand in one block of the log, which only the limit cuts:
one step for all branches, one for each branch in front of the first that holds, and one for that
branch. The next step is at the node to which the way of the switch leads, if there is such a node.
No other edge that leaves the switch is followed, and all that is told of it later turns back. -/
theorem switch_forks_once (h : Travelled e flow event mode runId r followed)
    (found : flow.node? id = some node) (body : node.body = .switch branches)
    (read : Store.getRun runId r.store = .ok run) :
    ∃ seen, (seen = { event with orgId := flow.orgId } ∨ seen = run.triggerEvent) ∧
      run.Forks e.settings.maxSteps flow id branches seen followed :=
  (h.oneWay found body read).forks

end

/-- The branches of the switch of the next flow. -/
def turnstile.branches : List Branch :=
  [⟨"old", "Old", ⟨"days_overdue", .greater, .string "30"⟩⟩,
    ⟨"vip", "VIP", ⟨"tag", .equals, .string "vip"⟩⟩]

/-- A switch of which the second branch matches. Two edges leave it through this branch, the first one
to a wait that leads back. -/
def turnstile : Flow where
  id := "turnstile"
  orgId := "acme"
  name := "Turnstile"
  status := .active
  nodes := [.atOrigin "t" (.trigger ⟨.invoiceOverdue, .none⟩),
    .atOrigin "s" (.switch turnstile.branches), .atOrigin "w" (.wait ⟨1, .hours⟩),
    .atOrigin "a" (.enroll ⟨"dunning", ""⟩)]
  edges := [.plain "ts" "t" "s", .ofBranch "so" "s" "old" "a", .ofBranch "sw" "s" "vip" "w",
    .ofBranch "sa" "s" "vip" "a", .plain "ws" "w" "s"]
  deletedAt := none

namespace turnstile

def event : Event := { Event.ofTrigger "acme" .invoiceOverdue with contactTags := some ["vip"] }

/-- The records after the execution, in a store that holds the flow. -/
def executed : Records MemoryStore :=
  (Engine.numbered.runFlow .calm .epoch turnstile event .live .manual
    ⟨MemoryStore.empty.saveFlow turnstile, 0⟩).records

/-- The records after the resumption, which comes back to the switch. -/
def back : Records MemoryStore :=
  (Engine.numbered.resumeDue .calm (.hour 1) "run1" (.hour 1) none executed).records

/-- The edges followed by the execution and the resumption. -/
def edges : List Edge :=
  Engine.numbered.followed .calm (.hour 1) "run1" (.hour 1) turnstile executed
    (Engine.numbered.trip turnstile event .live "run1" .epoch).followed

theorem travelled : Travelled .numbered turnstile event .live "run1" back edges := by
  have hbegun : Travelled .numbered turnstile event .live "run1" executed _ :=
    .executed .calm .epoch .manual _ rfl rfl _ rfl
  exact hbegun.resumed rfl .calm (.hour 1) (.hour 1)

theorem told_back : (Store.getRun "run1" back.store).map
    (fun run => (run.triggerEvent, run.log.map Step.mark)) =
      .ok (event, [⟨"t", some .trigger, .evaluated⟩, ⟨"s", some .switch, .evaluated⟩,
        ⟨"s", some .switch, .skipped⟩, ⟨"s", some .switch, .matched⟩,
        ⟨"w", some .wait, .waited⟩, ⟨"s", some .switch, .skipped⟩]) := by cbv

theorem ids_edges : edges.map Edge.id = ["ts", "sw", "ws"] := by cbv

end turnstile

open turnstile in
/-- The run comes to the switch twice. It enters it once and goes along the first of the two edges of
the second branch. -/
theorem switch_forks_once_turnstile : Travelled .numbered turnstile event .live "run1" back edges ∧
    turnstile.node? "s" = some (.atOrigin "s" (.switch branches)) ∧
    ∃ run, Store.getRun "run1" back.store = .ok run ∧
      run.log.map Step.mark =
        [⟨"t", some .trigger, .evaluated⟩, ⟨"s", some .switch, .evaluated⟩,
          ⟨"s", some .switch, .skipped⟩, ⟨"s", some .switch, .matched⟩, ⟨"w", some .wait, .waited⟩,
          ⟨"s", some .switch, .skipped⟩] ∧
      run.Forks Engine.numbered.settings.maxSteps turnstile "s" branches event edges ∧
      edges.map Edge.id = ["ts", "sw", "ws"] := by
  have htold := told_back
  cases hread : Store.getRun "run1" back.store with
  | error problem =>
    rw [hread] at htold
    cases htold
  | ok run =>
    rw [hread] at htold
    obtain ⟨hevent, hmarks⟩ := Prod.mk.inj (Except.ok.inj htold)
    have hfound : turnstile.node? "s" = some (.atOrigin "s" (.switch branches)) := rfl
    obtain ⟨seen, hseen, hforks⟩ := switch_forks_once travelled hfound rfl hread
    have hsame : seen = event := hseen.elim id fun h => h.trans hevent
    exact ⟨travelled, hfound, run, rfl, hmarks, hsame ▸ hforks, ids_edges⟩

end Dunning
