import Dunning.Proofs.Engine.Schedule
import Dunning.Proofs.Store.Refinement

/-!
# A dry run predicts a live run

A live run that is always resumed at the time of its earliest point comes to an end, and
its log is the one that a dry run of the same flow and event has foretold, whatever the
graph looks like and wherever the step limit stops the two. Behind its waits the live run
goes by the event as the store reads it, which has to meet the conditions of the flow as
the event does that was given.
-/
namespace Dunning

open WalkState

/-- Whether a call comes at the time of the earliest point of the run. -/
def Resumption.Exact (call : Resumption) : Prop :=
  ∃ p ∈ call.continuation.run.pending, call.now = p.resumeAt ∧
    ∀ q ∈ call.continuation.run.pending, p.resumeAt.le q.resumeAt = true

/-- A call at the time of the earliest point is late for none. -/
theorem Resumption.Exact.timely {call : Resumption} (h : call.Exact)
    (due : call.continuation.run.continuation call.now = .ok (some call.continuation))
    (flow : Flow) :
    call.Timely flow := by
  obtain ⟨p, -, hnow, hearliest⟩ := h
  refine Journey.timely_of_forall _ (fun q hq => ?_) _
  obtain ⟨hpending, hpast⟩ := (Run.mem_due_iff due).1 hq
  rw [hnow] at hpast ⊢
  exact Instant.le_antisymm hpast (hearliest q hpending)

/-- Whether every store call reaches the store. -/
structure Surroundings.Reliable (w : Surroundings) : Prop where
  getFlow : ∀ orgId flowId, w.getFlow orgId flowId = none
  getRun : ∀ runId, w.getRun runId = none
  updateRun : ∀ run, w.updateRun run = none

variable {σ : Type} [Store σ] [LawfulStore σ]

/-- A run with points that are due can be continued. -/
theorem Holds.exists_answer {flow : Flow} {event : Event} {runId : String} {r : Records σ}
    {run : Run} (h : Holds flow event runId r run) {now : Instant} {c : Continuation}
    (due : run.continuation now = .ok (some c))
    (countable : LawfulStore.counts (σ := σ) run.log.length)
    (e : Engine) {w : Surroundings} (reliable : w.Reliable) (clock : Instant) :
    ∃ run', (e.resumeDue w clock runId now none r).answer = .ok run' := by
  obtain ⟨hwaiting, -, hc⟩ := Run.continuation_eq_some_iff.1 due
  have hcrun : c.run = run := by rw [hc]
  have hfind : w.findRun runId r.store = .ok run := by
    rw [Surroundings.findRun, reliable.getRun]
    exact h.told
  have hflow : w.findFlow run.orgId run.flowId r.store = .ok (some flow) := by
    rw [Surroundings.findFlow, reliable.getFlow, h.orgId, h.flowId]
    exact h.listed
  have hid : (c.draft e (some flow) now clock).run.id = runId := by
    rw [← h.id, ← hcrun]
    rfl
  cases hupdate : w.update (c.draft e (some flow) now clock).run run.log.length r.store with
  | ok store =>
    refine ⟨(c.draft e (some flow) now clock).run, ?_⟩
    simp only [Engine.resumeDue, hfind, due, hflow, Engine.afterRival, hupdate]
  | error problem =>
    rw [Surroundings.update, reliable.updateRun] at hupdate
    have hfate :=
      LawfulStore.updateRun_error _ run _ r.store problem (hid.symm ▸ h.told) countable hupdate
    rcases hfate with ⟨hover, -⟩ | ⟨-, hlength, -⟩
    · exact absurd hwaiting hover
    · exact absurd rfl hlength

/-- Resumed at the time of its earliest point, as long as it waits, a live run ends. A waiting run
has such a point and can be continued behind it; a run that is over has the log that the dry run
foretells, and both have been stopped by the step limit or none, if the store reads the event as one
that meets the same conditions. -/
theorem dry_run_predicts {e : Engine} (scheduling : e.hasScheduler = true) {flow : Flow}
    {event : Event} (typed : event.Typed) {r : Records σ}
    (stored : Store.getFlow flow.orgId flow.id r.store = .ok (some flow))
    (fresh : Store.getRun (e.runId (r.named + 1)) r.store =
      .error (.notFound (e.runId (r.named + 1))))
    {w : Surroundings} {clock : Instant} {source : RunSource} {live : Run}
    (executed : (e.runFlow w clock flow event .live source r).answer = .ok live)
    {τ : Type} [Store τ] {r' : Records τ} {w' : Surroundings} {source' : RunSource} {dry : Run}
    (tried : (e.runFlow w' clock flow event .dryRun source' r').answer = .ok dry) :
    ∃ bound, ∀ calls records,
      Schedule e live.id (e.runFlow w clock flow event .live source r).records calls records →
      (∀ call ∈ calls, call.Exact) → calls.length ≤ bound ∧
        ∃ run, Store.getRun live.id records.store = .ok run ∧
          (run.status = .waiting → ∃ p ∈ run.pending,
            (∀ q ∈ run.pending, p.resumeAt.le q.resumeAt = true) ∧
            ∀ w clock, w.Reliable → LawfulStore.counts (σ := σ) run.log.length →
              ∃ run', (e.resumeDue w clock live.id p.resumeAt none records).answer = .ok run') ∧
          (run.status ≠ .waiting →
            LawfulStore.Serves σ flow { event with orgId := flow.orgId } →
            List.Forall₂ Step.Foretold run.log dry.log ∧
              (run.status = .truncated ↔ dry.status = .truncated)) := by
  obtain ⟨amount, hread⟩ :=
    LawfulStore.exists_reread (σ := σ) { event with orgId := flow.orgId } typed
  have hheld := holds_of_runFlow stored fresh hread executed
  obtain rfl := run_of_runFlow executed
  obtain rfl := run_of_runFlow tried
  let told : Event := { event with orgId := flow.orgId }
  let begun := e.begin flow told .dryRun (e.runId (r'.named + 1)) clock
  have htracked := e.tracks_draft scheduling flow event source (e.runId (r.named + 1))
    (e.runId (r'.named + 1)) clock
  refine ⟨begun.load (.ofFlow flow), fun calls records schedule hexact => ?_⟩
  have htimely : ∀ call ∈ calls, call.Timely flow := fun call hcall =>
    (hexact call hcall).timely (schedule.due call hcall) flow
  obtain ⟨run, t, hheld', htracked', hdrain, hload⟩ :=
    schedule.tracked scheduling hheld (htracked.of_event _) htimely
  have hbound := Nat.le_trans (Nat.le_add_right _ _) hload
  refine ⟨hbound, run, hheld'.told, fun hwaiting => ?_, fun hover served => ?_⟩
  · obtain ⟨-, hsome⟩ := htracked'.of_waiting hwaiting
    rw [← htracked'.points] at hsome
    obtain ⟨p, hp, hearliest⟩ := exists_earliest_point hsome
    refine ⟨p, hp, hearliest, fun w clock reliable countable => ?_⟩
    have hdue := Run.continuation_eq_some_iff.2 ⟨hwaiting, ⟨p, hp, Instant.le_refl _⟩, rfl⟩
    exact hheld'.exists_answer hdue countable e reliable clock
  · obtain ⟨read, hserved, hstands⟩ := served
    obtain rfl := Option.some.inj (hserved.symm.trans hread)
    exact htracked'.foretold hover event source' _ clock hstands hdrain

/-- Enroll an hour after the event. -/
def followUp : Flow where
  id := "follow-up"
  orgId := "acme"
  name := "Follow-up"
  status := .active
  nodes := [.atOrigin "t" (.trigger ⟨.invoiceOverdue, .none⟩), .atOrigin "w" (.wait ⟨1, .hours⟩),
    .atOrigin "a" (.enroll ⟨"dunning", ""⟩)]
  edges := [.plain "tw" "t" "w", .plain "wa" "w" "a"]
  deletedAt := none

namespace followUp

def event : Event := .ofTrigger "acme" .invoiceOverdue

theorem typed : event.Typed := fun _ h => nomatch h

/-- A store that holds the flow. -/
def stored : Records MemoryStore := ⟨MemoryStore.empty.saveFlow followUp, 0⟩

/-- The run that waits. -/
def live : Run := (Engine.numbered.draft followUp event .live .manual "run1" .epoch).run

def dry : Run := (Engine.numbered.draft followUp event .dryRun .manual "run1" .epoch).run

/-- The records after the execution. -/
def executed : Records MemoryStore :=
  (Engine.numbered.runFlow .calm .epoch followUp event .live .manual stored).records

/-- The records after the resumption an hour later. -/
def resumed : Records MemoryStore :=
  (Engine.numbered.resumeDue .calm (.hour 1) "run1" (.hour 1) none executed).records

theorem answer_live :
    (Engine.numbered.runFlow .calm .epoch followUp event .live .manual stored).answer =
      .ok live := by rfl

theorem answer_dry :
    (Engine.numbered.runFlow .calm .epoch followUp event .dryRun .manual stored).answer =
      .ok dry := by rfl

theorem getRun_executed : Store.getRun "run1" executed.store = .ok live := by cbv

theorem pending_live : live.pending = [⟨"w", .hour 1⟩] := by cbv

theorem over_resumed : (Store.getRun "run1" resumed.store).map
    (fun run => (run.status, run.log.map Step.nodeId)) = .ok (.completed, ["t", "w", "a"]) := by cbv

end followUp

open followUp in
/-- Resumed an hour later, the run is over and has gone as foretold. -/
theorem dry_run_predicts_followUp : ∃ run,
    Store.getRun "run1" resumed.store = .ok run ∧ run.status = .completed ∧
    run.log.map Step.nodeId = ["t", "w", "a"] ∧ List.Forall₂ Step.Foretold run.log dry.log := by
  obtain ⟨bound, hpredicts⟩ :=
    dry_run_predicts (e := .numbered) rfl typed (r := stored) rfl rfl answer_live answer_dry
  have schedule : Schedule .numbered "run1" executed _ resumed :=
    .resume .start .calm (.hour 1) (.hour 1)
  obtain ⟨-, run, hrun, -, hover⟩ := hpredicts _ _ schedule fun call hcall => by
    obtain ⟨hnow, run, -, -, hrun, hdue, -⟩ :=
      Engine.spec_of_resumption_some (Option.mem_toList.1 hcall)
    obtain rfl : live = run := Except.ok.inj (getRun_executed.symm.trans hrun)
    have hcrun : call.continuation.run = live := by rw [(Run.continuation_eq_some_iff.1 hdue).2.2]
    rw [Resumption.Exact, hcrun, pending_live, hnow]
    refine ⟨_, List.mem_singleton_self _, rfl, fun q hq => ?_⟩
    rw [List.mem_singleton.1 hq]
    exact Instant.le_refl _
  have hrun' : Store.getRun "run1" resumed.store = .ok run := hrun
  have hresumed := over_resumed
  rw [hrun'] at hresumed
  obtain ⟨hcompleted, hlog⟩ := Prod.mk.inj (Except.ok.inj hresumed)
  have hserved : LawfulStore.Serves MemoryStore followUp { event with orgId := followUp.orgId } :=
    .of_typed (by decide) typed
  obtain ⟨hforetold, -⟩ := hover (by rw [hcompleted]; decide) hserved
  exact ⟨run, hrun', hcompleted, hlog, hforetold⟩

def threshold.large : Condition := ⟨"amount", .greater, .string "1.4"⟩

/-- Enroll an hour after the event if the amount is large. -/
def threshold : Flow where
  id := "threshold"
  orgId := "acme"
  name := "Threshold"
  status := .active
  nodes := [.atOrigin "t" (.trigger ⟨.invoiceOverdue, .none⟩), .atOrigin "w" (.wait ⟨1, .hours⟩),
    .atOrigin "s" (.switch [⟨"b", "Large", threshold.large⟩]),
    .atOrigin "a" (.enroll ⟨"dunning", ""⟩)]
  edges := [.plain "tw" "t" "w", .plain "ws" "w" "s", .ofBranch "sa" "s" "b" "a"]
  deletedAt := none

namespace threshold

def event (amount : Option Binary64) : Event :=
  { Event.ofTrigger "acme" .invoiceOverdue with amount := amount }

/-- An amount of which the text is read as the number below it. -/
def written : Option Binary64 := Binary64.read? "1.4000000000000002".toList

def read : Option Binary64 := Binary64.read? "1.4".toList

theorem reread_event : LawfulStore.reread TableStore (event written) = some (event read) := by
  decide +kernel

theorem large_written : large.holds (event written) = true := by decide +kernel

theorem large_read : large.holds (event read) = false := by decide +kernel

/-- The course behind the wait: to the enrollment if the amount is large. -/
theorem course_behind (e : Event) (mode : Mode) {visited : List String} (switch : "s" ∉ visited)
    (enroll : "a" ∉ visited) :
    let node : Node := .atOrigin "s" (.switch [⟨"b", "Large", large⟩])
    (⟨.ofFlow threshold, e, mode⟩ : Journey).course ["s"] visited =
      .visit "s" :: .note "s" node .evaluated "Evaluating 1 branch(es)" ::
        if large.holds e then
          [.note "s" node .matched ("Branch 'Large' matched: " ++ large.describe e), .visit "a",
            .enroll "a" (.atOrigin "a" (.enroll ⟨"dunning", ""⟩)) ⟨"dunning", ""⟩]
        else [.note "s" node .skipped ("Branch 'Large' did not match: " ++ large.describe e)] := by
  intro node
  let j : Journey := ⟨.ofFlow threshold, e, mode⟩
  have hswitch : j.graph.node? "s" = some node := rfl
  have henroll : j.graph.node? "a" = some (.atOrigin "a" (.enroll ⟨"dunning", ""⟩)) := rfl
  have hentry : j.entryMoves "s" node = .note "s" node .evaluated "Evaluating 1 branch(es)" ::
      j.branchMoves "s" node [⟨"b", "Large", large⟩] := rfl
  have honward : j.onward "s" node = if large.holds e then ["a"] else [] := rfl
  have hlast : j.onward "a" (.atOrigin "a" (.enroll ⟨"dunning", ""⟩)) = [] := rfl
  rw [Journey.course_of_new hswitch _ switch, hentry, honward, Journey.branchMoves]
  cases large.holds e with
  | true =>
    have hnew : "a" ∉ "s" :: visited := by simp [enroll]
    rw [if_pos rfl, if_pos rfl, if_pos rfl, List.append_nil, Journey.course_of_new henroll _ hnew,
      hlast, List.append_nil, Journey.course_nil]
    rfl
  | false =>
    rw [if_neg Bool.false_ne_true, if_neg Bool.false_ne_true, if_neg Bool.false_ne_true,
      List.append_nil, Journey.course_nil]
    rfl

/-- A store of texts that holds the flow. -/
def stored : Records TableStore := ⟨TableStore.empty.saveFlow threshold, 0⟩

theorem listed : Store.getFlow threshold.orgId threshold.id stored.store = .ok (some threshold) := by
  have hnumbers : ∀ n ∈ (Flow.codec.write threshold).numbers,
      n = .int 1 ∨ n = .float (.zero false) := by decide +kernel
  have hlegible : threshold.Legible := by
    rw [Flow.Legible, Codec.text, Codec.parse_text Flow.codec (fun n hn => ?_) fun x hx => ?_]
    · rfl
    · rcases hnumbers n hn with rfl | rfl
      · exact ⟨by decide, by decide⟩
      · trivial
    · obtain rfl : x = .zero false := by simpa using hnumbers _ hx
      unfold Binary64.ReadsBack
      decide +kernel
  exact (Mirrors.empty.saveFlow hlegible).getFlow_eq threshold.orgId threshold.id

/-- The run that waits. -/
def live (amount : Option Binary64) : Run :=
  (Engine.numbered.draft threshold (event amount) .live .manual "run1" .epoch).run

def dry (amount : Option Binary64) : Run :=
  (Engine.numbered.draft threshold (event amount) .dryRun .manual "run1" .epoch).run

theorem live_eq (amount : Option Binary64) : live amount = ⟨"run1", "threshold", "acme", .manual,
    event amount, .waiting, .epoch, none,
    [⟨"t", some .trigger, .evaluated, "Trigger matched: Invoice Overdue", .epoch⟩,
      ⟨"w", some .wait, .waited, "Waiting 1 hour; resumes at 1970-01-01T01:00:00+00:00", .epoch⟩],
    [⟨"w", .hour 1⟩]⟩ := by cbv

/-- The marks up to the switch. -/
def marks : List Mark := [⟨"t", some .trigger, .evaluated⟩, ⟨"w", some .wait, .waited⟩,
  ⟨"s", some .switch, .evaluated⟩]

theorem marks_dry {amount : Option Binary64} (h : large.holds (event amount) = true) :
    ((dry amount).status, (dry amount).log.map Step.mark) = (.dryRun,
      marks ++ [⟨"s", some .switch, .matched⟩, ⟨"a", some .enroll, .executed⟩]) := by
  have hbegun : Engine.numbered.begin threshold (event amount) .dryRun "run1" .epoch =
      { WalkState.start "run1" 500 false .epoch with
        log := [⟨"t", some .trigger, .evaluated, "Trigger matched: Invoice Overdue", .epoch⟩,
          ⟨"w", some .wait, .waited, "[Dry run] Would wait 1 hour", .epoch⟩]
        visited := ["w", "t"]
        deferred := [⟨"w", .hour 1⟩] } := by cbv
  have htargets : ((Graph.ofFlow threshold).outgoing "w").map Edge.target = ["s"] := rfl
  have hwalk := Engine.numbered.walkFlow_eq threshold (event amount) .dryRun "run1" .epoch
  rw [hbegun, drain_of_earliest _ rfl rfl, walkDownstream, htargets, walk_eq,
    course_behind _ _ (by decide) (by decide), if_pos h, drain_of_deferred_nil _ rfl] at hwalk
  have hstatus : (dry amount).status = (Engine.numbered.walkFlow threshold (event amount) .dryRun
    "run1" .epoch).runStatus .dryRun := rfl
  have hlog : (dry amount).log = (Engine.numbered.walkFlow threshold (event amount) .dryRun "run1"
    .epoch).log := rfl
  rw [hstatus, hlog, hwalk]
  rfl

/-- The run that waits, as it is told with another amount. -/
def told (amount amount' : Option Binary64) : Run :=
  { live amount with triggerEvent := event amount' }

theorem continuation_told (amount amount' : Option Binary64) :
    (told amount amount').continuation (.hour 1) =
      .ok (some ⟨told amount amount', [⟨"w", .hour 1⟩], []⟩) := by
  have hpending : (told amount amount').pending = [⟨"w", .hour 1⟩] := by rw [told, live_eq]
  have hpast : (Instant.hour 1).le (.hour 1) = true := Instant.le_refl _
  refine Run.continuation_eq_some_iff.2 ⟨by rw [told, live_eq],
    ⟨⟨"w", .hour 1⟩, ?_, hpast⟩, ?_⟩
  · rw [hpending]
    exact List.mem_singleton_self _
  · simp [hpending]

/-- The run as it is told an hour later. -/
def overdue : Continuation := ⟨told written read, [⟨"w", .hour 1⟩], []⟩

/-- The run behind the wait. -/
def last : Run := (overdue.draft .numbered (some threshold) (.hour 1) (.hour 1)).run

theorem marks_last : (last.status, last.log.map Step.mark) = (.completed,
    marks ++ [⟨"s", some .switch, .skipped⟩]) := by
  let j : Journey := ⟨.ofFlow threshold, event read, .live⟩
  have hwalk : overdue.walk .numbered (some threshold) (.hour 1) (.hour 1) =
      ((overdue.start .numbered (.hour 1) (.hour 1)).walk j ["s"]).drain j := rfl
  have hstart : overdue.start .numbered (.hour 1) (.hour 1) =
      { WalkState.start "run1" 500 true (.hour 1) with
        log := [⟨"t", some .trigger, .evaluated, "Trigger matched: Invoice Overdue", .epoch⟩,
          ⟨"w", some .wait, .waited, "Waiting 1 hour; resumes at 1970-01-01T01:00:00+00:00", .epoch⟩]
        visited := ["t", "w"] } := by
    simp only [overdue, told, live_eq]
    rfl
  rw [hstart, walk_eq, course_behind _ _ (by decide) (by decide), large_read,
    if_neg Bool.false_ne_true, drain_of_deferred_nil _ rfl] at hwalk
  have hstatus : last.status =
    (overdue.walk .numbered (some threshold) (.hour 1) (.hour 1)).runStatus .live := rfl
  have hlog : last.log = (overdue.walk .numbered (some threshold) (.hour 1) (.hour 1)).log := rfl
  rw [hstatus, hlog, hwalk]
  rfl

theorem answer_live : (Engine.numbered.runFlow .calm .epoch threshold (event written) .live .manual
    stored).answer = .ok (live written) := by rfl

theorem answer_dry : (Engine.numbered.runFlow .calm .epoch threshold (event written) .dryRun .manual
    stored).answer = .ok (dry written) := by rfl

/-- The records after the execution. -/
def executed : Records TableStore :=
  (Engine.numbered.runFlow .calm .epoch threshold (event written) .live .manual stored).records

/-- The records after the resumption an hour later. -/
def resumed : Records TableStore :=
  (Engine.numbered.resumeDue .calm (.hour 1) "run1" (.hour 1) none executed).records

theorem holds_executed : Holds threshold (event read) "run1" executed (told written read) := by
  have hread : LawfulStore.reread TableStore { event written with orgId := threshold.orgId } =
      some (event read) := reread_event
  have hfresh : Store.getRun (Engine.numbered.runId (stored.named + 1)) stored.store =
      .error (.notFound (Engine.numbered.runId (stored.named + 1))) := rfl
  have hid : (live written).id = "run1" := rfl
  have hheld := holds_of_runFlow listed hfresh hread answer_live
  rw [hid] at hheld
  exact hheld

theorem resumption_executed : Engine.numbered.resumption? .calm (.hour 1) "run1" (.hour 1) executed =
    some ⟨overdue, .hour 1⟩ := by
  have hcountable : LawfulStore.counts (σ := TableStore) (told written read).log.length := by
    rw [told, live_eq]
    exact (by decide : 2 ≤ TableStore.maxSteps)
  obtain ⟨run, hanswer⟩ := holds_executed.exists_answer (continuation_told written read) hcountable
    .numbered (w := .calm) ⟨fun _ _ => rfl, fun _ => rfl, fun _ => rfl⟩ (.hour 1)
  simp only [Engine.resumption?, holds_executed.told, continuation_told, hanswer]
  rfl

theorem holds_resumed : Holds threshold (event read) "run1" resumed last :=
  (holds_executed.resume resumption_executed).2.2

end threshold

open threshold in
/-- The store reads the amount as one that is not large, so that the run ends without the enrollment
that the dry run foretells. -/
theorem reread_amount_misleads :
    Store.getFlow threshold.orgId threshold.id stored.store = .ok (some threshold) ∧
    (Engine.numbered.runFlow .calm .epoch threshold (event written) .live .manual stored).answer =
      .ok (live written) ∧
    (Engine.numbered.runFlow .calm .epoch threshold (event written) .dryRun .manual stored).answer =
      .ok (dry written) ∧
    (∃ calls, Schedule .numbered "run1" executed calls resumed ∧ ∀ call ∈ calls, call.Exact) ∧
    ∃ run, Store.getRun "run1" resumed.store = .ok run ∧ run.status = .completed ∧
      ¬List.Forall₂ Step.Foretold run.log (dry written).log := by
  obtain ⟨hcompleted, hmarks⟩ := Prod.mk.inj marks_last
  obtain ⟨-, hmarks'⟩ := Prod.mk.inj (marks_dry large_written)
  have schedule : Schedule .numbered "run1" executed _ resumed :=
    .resume .start .calm (.hour 1) (.hour 1)
  rw [resumption_executed] at schedule
  refine ⟨listed, answer_live, answer_dry, ⟨_, schedule, fun call hcall => ?_⟩, last,
    holds_resumed.told, hcompleted, fun foretold => ?_⟩
  · obtain rfl := List.mem_singleton.1 hcall
    have hpending : overdue.run.pending = [⟨"w", .hour 1⟩] := by rw [overdue, told, live_eq]
    rw [Resumption.Exact, hpending]
    refine ⟨_, List.mem_singleton_self _, rfl, fun q hq => ?_⟩
    rw [List.mem_singleton.1 hq]
    exact Instant.le_refl _
  · have hlength : (last.log.map Step.mark).length = ((dry written).log.map Step.mark).length := by
      rw [List.length_map, List.length_map]
      exact foretold.length_eq
    rw [hmarks, hmarks'] at hlength
    cases hlength

end Dunning
