import Dunning.Proofs.Engine.Schedule
import Dunning.Proofs.Walk.Tour

/-!
# The order of late resumptions

A late resumption dates the waits behind its points from its own time, and goes on behind
several points at once. Then a live run may continue its waits in another order than a
dry run, and visit the nodes behind them in another order too. Apart from the order of
the waits there is no difference.
-/
namespace Dunning

open WalkState

/-- A log that has gone on behind waits, in the order given. -/
structure Toured (j : Journey) (order : List String) (log log' : List Step) : Prop where
  nodeIds : log'.map Step.nodeId =
    log.map Step.nodeId ++ Move.nodeIds (j.tour order (enteredIds log))
  entered : ∀ id, id ∈ enteredIds log' ↔
    id ∈ Move.visits (j.tour order (enteredIds log)) ++ enteredIds log

namespace Toured

variable {j : Journey} {order order' : List String} {log log' log'' : List Step}

theorem refl (j : Journey) (log : List Step) : Toured j [] log log :=
  ⟨(List.append_nil _).symm, fun _ => Iff.rfl⟩

/-- One tour after the other is the tour of both. -/
theorem trans (h : Toured j order log log') (h' : Toured j order' log' log'') :
    Toured j (order ++ order') log log'' := by
  have hrest : j.tour order' (enteredIds log') =
      j.tour order' (Move.visits (j.tour order (enteredIds log)) ++ enteredIds log) :=
    Journey.tour_congr j.graph j.event j.mode j.mode order' h.entered
  refine ⟨?_, fun id => ?_⟩
  · rw [h'.nodeIds, h.nodeIds, hrest, Journey.tour_append, Move.nodeIds_append, List.append_assoc]
  · rw [h'.entered, hrest, Journey.tour_append, Move.visits_append, List.append_assoc,
      List.mem_append, List.mem_append, h.entered]

end Toured

/-- A continued run has gone on behind its due points. -/
theorem Continuation.toured_draft (c : Continuation) {e : Engine}
    (scheduling : e.hasScheduler = true) (flow : Flow) (now clock : Instant)
    (uncut : (c.draft e (some flow) now clock).run.status ≠ .truncated) :
    Toured (c.journey (some flow)) (c.due.map ResumePoint.nodeId) c.run.log
      (c.draft e (some flow) now clock).run.log := by
  have hopen : (c.walk e (some flow) now clock).truncated = false := truncated_of_runStatus uncut
  have hsuspends : (c.start e now clock).suspends (c.journey (some flow)).mode = true := scheduling
  have hwalk : c.walk e (some flow) now clock = c.due.foldl
      (fun s p => s.walkDownstream (c.journey (some flow)) p.nodeId) (c.start e now clock) :=
    drain_of_deferred_nil _ (deferred_foldl_of_suspends _ c.due hsuspends rfl)
  have haccounted := (steady_accounted (c.journey (some flow))).continuation
    (c.accounted_start e now clock) hopen
  rw [hwalk] at hopen
  obtain ⟨-, hlog, hvisited⟩ := nodeIds_foldl (c.journey (some flow)) c.due hopen
  rw [← hwalk] at hlog hvisited
  refine ⟨hlog, fun id => ?_⟩
  have hids : id ∈ (c.walk e (some flow) now clock).visited ↔ id ∈ enteredIds _ := haccounted id
  exact hids.symm.trans (by rw [hvisited]; rfl)

/-- The waits behind which calls have continued a run, in order. -/
def continued (calls : List Resumption) : List String :=
  calls.flatMap fun call => call.continuation.due.map ResumePoint.nodeId

/-- The waits behind which a dry run goes on, in order. -/
def Engine.dryOrder (e : Engine) (flow : Flow) (event : Event) (runId : String) (clock : Instant) :
    List String :=
  drained ⟨.ofFlow flow, event, .dryRun⟩ (e.begin flow event .dryRun runId clock)

/-- The nodes that a run tells of, without consecutive repeats. -/
def Run.visitation (run : Run) : List String := withoutRepeats (run.log.map Step.nodeId)

/-- The nodes that are told of if a log goes on behind waits in an order. -/
def Journey.visitation (j : Journey) (log : List Step) (order : List String) : List String :=
  withoutRepeats (log.map Step.nodeId ++ Move.nodeIds (j.tour order (enteredIds log)))

/-- Events that stand for each other lead to the same nodes. -/
theorem Journey.visitation_stand_in {flow : Flow} {event read : Event}
    (stands : read.StandsFor event flow) (mode : Mode) (log : List Step) (order : List String) :
    (⟨.ofFlow flow, read, mode⟩ : Journey).visitation log order =
      (⟨.ofFlow flow, event, mode⟩ : Journey).visitation log order := by
  have htour := Journey.tour_wordless stands mode order (enteredIds log)
  rw [visitation, visitation, Move.nodeIds_wordless htour]

theorem Toured.visitation {j : Journey} {order : List String} {run run' : Run}
    (h : Toured j order run.log run'.log) : run'.visitation = j.visitation run.log order := by
  rw [Run.visitation, h.nodeIds, Journey.visitation]

/-- The drain of a dry walk visits what the run that it tracks would visit in the same order. -/
theorem Tracks.visitation_drain {e : Engine} {flow : Flow} {run : Run} {t : WalkState}
    (h : Tracks e flow run t) (event : Event)
    (uncut : (t.drain ⟨.ofFlow flow, event, .dryRun⟩).truncated = false) :
    (t.drain ⟨.ofFlow flow, event, .dryRun⟩).visitation =
      (⟨.ofFlow flow, event, .live⟩ : Journey).visitation run.log
        (drained ⟨.ofFlow flow, event, .dryRun⟩ t) := by
  obtain ⟨hopen, hlog⟩ := nodeIds_drain _ uncut
  have hids : ∀ id, id ∈ enteredIds run.log ↔ id ∈ t.visited := by
    intro id
    rw [enteredIds_of_foretold h.log]
    exact (h.accounted hopen id).symm
  have htour := Journey.tour_congr (.ofFlow flow) event .live .dryRun
    (drained ⟨.ofFlow flow, event, .dryRun⟩ t) hids
  rw [WalkState.visitation, Journey.visitation, hlog, htour, nodeIds_of_foretold h.log]

section

variable {σ : Type} [Store σ] [LawfulStore σ]

/-- As long as the step limit is not reached, a run has gone on behind the waits of its schedule. -/
theorem Schedule.toured {e : Engine} (scheduling : e.hasScheduler = true) {flow : Flow}
    {event : Event} {runId : String} {r r' : Records σ} {calls : List Resumption}
    (h : Schedule e runId r calls r') {run : Run} (held : Holds flow event runId r run) :
    ∃ run', Holds flow event runId r' run' ∧
      (run'.status ≠ .truncated →
        Toured ⟨.ofFlow flow, event, .live⟩ (continued calls) run.log run'.log) := by
  induction h with
  | start => exact ⟨run, held, fun _ => .refl _ _⟩
  | @resume calls r' before w clock now ih =>
    obtain ⟨run', held', htoured⟩ := ih
    cases hcall : e.resumption? w clock runId now r' with
    | none =>
      rw [Engine.records_of_resumption_none hcall]
      exact ⟨run', held', by simpa using htoured⟩
    | some call =>
      obtain ⟨-, hdue, hheld⟩ := held'.resume hcall
      obtain ⟨hwaiting, -, hc⟩ := Run.continuation_eq_some_iff.1 hdue
      have hcrun : call.continuation.run = run' := by rw [hc]
      have hjourney : call.continuation.journey (some flow) = ⟨.ofFlow flow, event, .live⟩ := by
        rw [Continuation.journey, hcrun, held'.event]
        rfl
      refine ⟨_, hheld, fun uncut => ?_⟩
      have hnext := call.continuation.toured_draft scheduling flow now clock uncut
      rw [hjourney, hcrun] at hnext
      have hall := (htoured (by rw [hwaiting]; decide)).trans hnext
      simpa [continued, List.flatMap_append] using hall

/-- What a live run visits depends on when it is resumed through the order of its waits only. It
visits what the dry run visits if, and only if, the order of the one leads to the same nodes, for the
event as the store reads it, as that of the other for the event as it was given. If the two events
meet the same conditions, then each order leads to the same nodes for both, and resumptions that are
late for no point behind which further waits are met make no difference. -/
theorem visitation_of_schedule {e : Engine} (scheduling : e.hasScheduler = true) {flow : Flow}
    {event : Event} (typed : event.Typed) {r : Records σ}
    (stored : Store.getFlow flow.orgId flow.id r.store = .ok (some flow))
    (fresh : Store.getRun (e.runId (r.named + 1)) r.store =
      .error (.notFound (e.runId (r.named + 1))))
    {w : Surroundings} {clock : Instant} {source : RunSource} {live : Run}
    (executed : (e.runFlow w clock flow event .live source r).answer = .ok live)
    {τ : Type} [Store τ] {r' : Records τ} {w' : Surroundings} {source' : RunSource} {dry : Run}
    (tried : (e.runFlow w' clock flow event .dryRun source' r').answer = .ok dry)
    {calls : List Resumption} {records : Records σ}
    (schedule : Schedule e live.id (e.runFlow w clock flow event .live source r).records
      calls records) :
    let told : Event := { event with orgId := flow.orgId }
    let journey (event : Event) : Journey := ⟨.ofFlow flow, event, .live⟩
    ∃ run read, Store.getRun live.id records.store = .ok run ∧
      LawfulStore.reread σ told = some read ∧
      (run.status ≠ .truncated → dry.status ≠ .truncated →
        let order := e.dryOrder flow told dry.id clock
        run.visitation = (journey read).visitation live.log (continued calls) ∧
          dry.visitation = (journey told).visitation live.log order ∧
          (run.visitation = dry.visitation ↔ (journey read).visitation live.log (continued calls) =
            (journey told).visitation live.log order)) ∧
      (read.StandsFor told flow →
        (∀ order, (journey read).visitation live.log order =
          (journey told).visitation live.log order) ∧
        (run.status ≠ .waiting → (∀ call ∈ calls, call.Timely flow) →
          run.visitation = dry.visitation)) := by
  intro told journey
  obtain ⟨amount, hread⟩ := LawfulStore.exists_reread (σ := σ) told typed
  have hheld := holds_of_runFlow stored fresh hread executed
  obtain rfl := run_of_runFlow executed
  obtain rfl := run_of_runFlow tried
  have htracked := e.tracks_draft scheduling flow event source (e.runId (r.named + 1))
    (e.runId (r'.named + 1)) clock
  obtain ⟨run, hheld', htoured⟩ := schedule.toured scheduling hheld
  refine ⟨run, _, hheld'.told, hread, fun uncut uncut' => ?_, fun stands =>
    ⟨Journey.visitation_stand_in stands .live _, fun ended timely => ?_⟩⟩
  · intro order
    have hrun : run.visitation = (journey { told with amount := amount }).visitation _
      (continued calls) := (htoured uncut).visitation
    have hopen := truncated_of_runStatus uncut'
    rw [e.walkFlow_eq] at hopen
    have hdry : (e.draft flow event .dryRun source' (e.runId (r'.named + 1)) clock).run.visitation =
        (journey told).visitation _ order := htracked.visitation_drain _ hopen
    refine ⟨hrun, hdry, ?_⟩
    rw [hrun, hdry]
  · obtain ⟨run', t, hheld'', htracked', hdrain, -⟩ :=
      schedule.tracked scheduling hheld (htracked.of_event _) timely
    obtain rfl : run = run' := Except.ok.inj (hheld'.told.symm.trans hheld''.told)
    have hlog := (htracked'.foretold ended event source' _ clock stands hdrain).1
    rw [Run.visitation, Run.visitation, nodeIds_of_foretold hlog]

end

/-- The first wait leads to another one, and the two are over before the second. -/
def relay : Flow where
  id := "relay"
  orgId := "acme"
  name := "Relay"
  status := .active
  nodes := [.atOrigin "t" (.trigger ⟨.invoiceOverdue, .none⟩), .atOrigin "w1" (.wait ⟨1, .hours⟩),
    .atOrigin "w2" (.wait ⟨3, .hours⟩), .atOrigin "w3" (.wait ⟨1, .hours⟩),
    .atOrigin "a" (.enroll ⟨"first", ""⟩), .atOrigin "b" (.enroll ⟨"second", ""⟩)]
  edges := [.plain "t1" "t" "w1", .plain "t2" "t" "w2", .plain "13" "w1" "w3", .plain "3a" "w3" "a",
    .plain "2b" "w2" "b"]
  deletedAt := none

namespace relay

def event : Event := .ofTrigger "acme" .invoiceOverdue

/-- A store that holds the flow. -/
def stored : Records MemoryStore := ⟨MemoryStore.empty.saveFlow relay, 0⟩

theorem typed : event.Typed := fun _ h => nomatch h

/-- The run that waits at the first two waits. -/
def live : Run := (Engine.numbered.draft relay event .live .manual "run1" .epoch).run

def dry : Run := (Engine.numbered.draft relay event .dryRun .manual "run1" .epoch).run

/-- The records after the execution. -/
def executed : Records MemoryStore :=
  (Engine.numbered.runFlow .calm .epoch relay event .live .manual stored).records

/-- The records after one more resumption. -/
def resumed (now : Nat) (r : Records MemoryStore) : Records MemoryStore :=
  (Engine.numbered.resumeDue .calm (.hour now) "run1" (.hour now) none r).records

theorem answer_live :
    (Engine.numbered.runFlow .calm .epoch relay event .live .manual stored).answer =
      .ok live := by rfl

theorem answer_dry :
    (Engine.numbered.runFlow .calm .epoch relay event .dryRun .manual stored).answer =
      .ok dry := by rfl

/-- When both waits are overdue, the further wait is met late, and is continued last. -/
theorem over_late : (Store.getRun "run1" (resumed 6 (resumed 5 executed)).store).map (fun run =>
    (run.status, run.visitation, run.log.all fun step => step.action ≠ .skipped)) =
      .ok (.completed, ["t", "w1", "w2", "w3", "b", "a"], true) := by cbv

theorem over_dry : (dry.status, dry.visitation, dry.log.all fun step => step.action ≠ .skipped) =
    (.dryRun, ["t", "w1", "w2", "w3", "a", "b"], true) := by cbv

theorem dryOrder_relay :
    Engine.numbered.dryOrder relay event "run1" .epoch = ["w1", "w3", "w2"] := by cbv

/-- The calls after five and six hours. -/
def lateCalls : List Resumption :=
  [] ++ (Engine.numbered.resumption? .calm (.hour 5) "run1" (.hour 5) executed).toList ++
    (Engine.numbered.resumption? .calm (.hour 6) "run1" (.hour 6) (resumed 5 executed)).toList

theorem schedule_late :
    Schedule .numbered "run1" executed lateCalls (resumed 6 (resumed 5 executed)) :=
  .resume (.resume .start .calm (.hour 5) (.hour 5)) .calm (.hour 6) (.hour 6)

theorem continued_late : continued lateCalls = ["w1", "w2", "w3"] := by cbv

/-- The calls after one and nine hours. -/
def timelyCalls : List Resumption :=
  [] ++ (Engine.numbered.resumption? .calm (.hour 1) "run1" (.hour 1) executed).toList ++
    (Engine.numbered.resumption? .calm (.hour 9) "run1" (.hour 9) (resumed 1 executed)).toList

theorem schedule_timely : Schedule .numbered "run1" executed timelyCalls
    (resumed 9 (resumed 1 executed)) :=
  .resume (.resume .start .calm (.hour 1) (.hour 1)) .calm (.hour 9) (.hour 9)

/-- The run when it is read after an hour. -/
def first : Continuation := ⟨live, [⟨"w1", .hour 1⟩], [⟨"w2", .hour 3⟩]⟩

/-- The run when it is read after nine hours. -/
def second : Continuation :=
  ⟨(first.draft .numbered (some relay) (.hour 1) (.hour 1)).run,
    [⟨"w3", .hour 2⟩, ⟨"w2", .hour 3⟩], []⟩

theorem timelyCalls_eq : timelyCalls = [⟨first, .hour 1⟩, ⟨second, .hour 9⟩] := by cbv

theorem over_timely : (Store.getRun "run1" (resumed 9 (resumed 1 executed)).store).map Run.status =
    .ok .completed := by cbv

def journey : Journey := ⟨.ofFlow relay, event, .live⟩

theorem enteredIds_second : enteredIds second.run.log = ["t", "w1", "w2", "w3"] := by cbv

theorem course_w3 : journey.course (journey.targets "w3") ["t", "w1", "w2", "w3"] =
    [.visit "a", .enroll "a" (.atOrigin "a" (.enroll ⟨"first", ""⟩)) ⟨"first", ""⟩] := by cbv

theorem course_w2 : journey.course (journey.targets "w2") ["a", "t", "w1", "w2", "w3"] =
    [.visit "b", .enroll "b" (.atOrigin "b" (.enroll ⟨"second", ""⟩)) ⟨"second", ""⟩] := by cbv

/-- Behind the last two waits there are no others. -/
theorem timely_second : Resumption.Timely relay ⟨second, .hour 9⟩ := by
  have htimely :
      journey.Timely (.hour 9) [⟨"w3", .hour 2⟩, ⟨"w2", .hour 3⟩] ["t", "w1", "w2", "w3"] := by
    refine ⟨.inr ?_, .inr ?_, trivial⟩
    · rw [course_w3]
      simp [Move.waits]
    · rw [course_w3]
      show ∀ m ∈ journey.course (journey.targets "w2") ["a", "t", "w1", "w2", "w3"], m.waits = false
      rw [course_w2]
      simp [Move.waits]
  rw [← enteredIds_second] at htimely
  exact htimely

theorem timely_calls : ∀ call ∈ timelyCalls, call.Timely relay := by
  rw [timelyCalls_eq]
  intro call hcall
  rcases List.mem_pair.1 hcall with rfl | rfl
  · exact ⟨.inl rfl, trivial⟩
  · exact timely_second

theorem uncut_dry : dry.status ≠ .truncated := by
  rw [(Prod.mk.inj over_dry).1]
  decide

end relay

open relay in
/-- Late for both waits, the run takes them in another order than the dry run. In time for the
first, it may be as late as it likes for the others. -/
theorem visitation_of_schedule_relay :
    (∃ run, Store.getRun "run1" (resumed 6 (resumed 5 executed)).store = .ok run ∧
      run.visitation = journey.visitation live.log ["w1", "w2", "w3"] ∧
      dry.visitation = journey.visitation live.log ["w1", "w3", "w2"]) ∧
    ∃ run, Store.getRun "run1" (resumed 9 (resumed 1 executed)).store = .ok run ∧
      run.visitation = dry.visitation := by
  constructor
  · obtain ⟨run, read, hrun, hread, huncut, -⟩ := visitation_of_schedule (e := .numbered) rfl typed
      (r := stored) rfl rfl answer_live answer_dry schedule_late
    have hstored : Store.getRun "run1" (resumed 6 (resumed 5 executed)).store = .ok run := hrun
    have hover := over_late
    rw [hstored] at hover
    have hcompleted : run.status = .completed := (Prod.mk.inj (Except.ok.inj hover)).1
    obtain ⟨hlive, hdry, -⟩ := huncut (by rw [hcompleted]; decide) uncut_dry
    obtain rfl := Option.some.inj hread
    rw [continued_late] at hlive
    have horder : Engine.numbered.dryOrder relay { event with orgId := relay.orgId } dry.id .epoch =
      ["w1", "w3", "w2"] := dryOrder_relay
    rw [horder] at hdry
    exact ⟨run, hstored, hlive, hdry⟩
  · obtain ⟨run, read, hrun, hread, -, htimely⟩ := visitation_of_schedule (e := .numbered) rfl
      typed (r := stored) rfl rfl answer_live answer_dry schedule_timely
    have hstored : Store.getRun "run1" (resumed 9 (resumed 1 executed)).store = .ok run := hrun
    have hover := over_timely
    rw [hstored] at hover
    have hcompleted : run.status = .completed := Except.ok.inj hover
    obtain rfl := Option.some.inj hread
    obtain ⟨-, hsame⟩ := htimely (.refl event relay)
    exact ⟨run, hstored, hsame (by rw [hcompleted]; decide) timely_calls⟩

open relay in
/-- Resumed after both waits are over, a run meets the further wait late and continues it last. The
dry run has it before the second wait. Nothing is skipped in either run. -/
theorem late_resumptions_reorder :
    ∃ (calls : List Resumption) (records : Records MemoryStore) (run : Run),
    (Engine.numbered.runFlow .calm .epoch relay event .live .manual stored).answer = .ok live ∧
    (Engine.numbered.runFlow .calm .epoch relay event .dryRun .manual stored).answer = .ok dry ∧
    Schedule .numbered "run1" executed calls records ∧ Store.getRun "run1" records.store = .ok run ∧
    run.status = .completed ∧ dry.status = .dryRun ∧
    (∀ step ∈ run.log ++ dry.log, step.action ≠ .skipped) ∧
    run.visitation = ["t", "w1", "w2", "w3", "b", "a"] ∧
    dry.visitation = ["t", "w1", "w2", "w3", "a", "b"] := by
  have hover := over_late
  cases hrun : Store.getRun "run1" (resumed 6 (resumed 5 executed)).store with
  | error problem =>
    rw [hrun] at hover
    cases hover
  | ok run =>
    rw [hrun] at hover
    obtain ⟨hcompleted, hvisits, hnone⟩ : run.status = .completed ∧
        run.visitation = ["t", "w1", "w2", "w3", "b", "a"] ∧
        ∀ step ∈ run.log, step.action ≠ .skipped := by simpa using Except.ok.inj hover
    obtain ⟨hdry, hvisits', hnone'⟩ : dry.status = .dryRun ∧
        dry.visitation = ["t", "w1", "w2", "w3", "a", "b"] ∧
        ∀ step ∈ dry.log, step.action ≠ .skipped := by simpa using over_dry
    refine ⟨_, _, run, answer_live, answer_dry, schedule_late, hrun, hcompleted, hdry, ?_, hvisits,
      hvisits'⟩
    intro step hstep
    rcases List.mem_append.1 hstep with hstep | hstep
    · exact hnone step hstep
    · exact hnone' step hstep

end Dunning
