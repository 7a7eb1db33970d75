import Dunning.Proofs.Engine.Charting
import Dunning.Proofs.Engine.Mirror
import Dunning.Proofs.Engine.OrderLaw
import Dunning.Proofs.Engine.Prediction

/-!
# What a run does does not depend on when it is resumed

Two live runs of a flow for an event may be resumed at any times, with any of their points
due at once. If both come to their end, and neither was cut or met a wait without an end,
they have logged the same and asked for the same enrollments, but for the order. A dry run
has foretold it, if the store reads the event as one that meets the same conditions.
-/
namespace Dunning

/-- A call to resume a run: those around the caller, the caller's clock, and the time up to which
points are due. -/
structure Recall where
  surroundings : Surroundings
  clock : Instant
  now : Instant

/-- A live run of a flow: its execution, and the calls to resume it. -/
structure Life (σ : Type) where
  records : Records σ
  surroundings : Surroundings
  clock : Instant
  source : RunSource
  calls : List Recall

section
variable {σ : Type} [Store σ]

/-- Calls to resume a run, one after the other: the records that they leave, and what was done. -/
def Engine.resumeEach (e : Engine) (runId : String) : List Recall → Records σ →
    Records σ × List Deed
  | [], r => (r, [])
  | call :: rest, r =>
      let first := e.resumeDue call.surroundings call.clock runId call.now none r
      let others := resumeEach e runId rest first.records
      (others.1, first.deeds ++ others.2)

namespace Life

def runId (l : Life σ) (e : Engine) : String := e.runId (l.records.named + 1)

/-- The execution. -/
def begun (l : Life σ) (e : Engine) (flow : Flow) (event : Event) : Outcome σ Run :=
  e.runFlow l.surroundings l.clock flow event .live l.source l.records

/-- The records after the last call, and all that was done. -/
def ended (l : Life σ) (e : Engine) (flow : Flow) (event : Event) : Records σ × List Deed :=
  let begun := l.begun e flow event
  let resumed := e.resumeEach (l.runId e) l.calls begun.records
  (resumed.1, begun.deeds ++ resumed.2)

/-- A live run of a stored flow that is brought to its end, uncut and with no wait out of range, by
callers whose dispatchers always answer. -/
structure Completes [LawfulStore σ] (l : Life σ) (e : Engine) (flow : Flow) (event : Event)
    (run : Run) : Prop where
  stored : Store.getFlow flow.orgId flow.id l.records.store = .ok (some flow)
  fresh : Store.getRun (l.runId e) l.records.store = .error (.notFound (l.runId e))
  lasting : l.surroundings.Lasting
  lasting_calls : ∀ call ∈ l.calls, call.surroundings.Lasting
  executed : ∃ live, (l.begun e flow event).answer = .ok live
  told : Store.getRun (l.runId e) (l.ended e flow event).1.store = .ok run
  terminal : run.status.isTerminal = true
  uncut : run.status ≠ .truncated
  inRange : run.InRange

end Life

end

open WalkState

section
variable {σ : Type} [Store σ] [LawfulStore σ]

/-- A stored run of a flow, with the requests that have been made for its enrollments so far. As long
as it is not cut it charts an exploration, which may have been begun for another event. -/
structure Underway (e : Engine) (flow : Flow) (event : Event) (first : List Move) (runId : String)
    (r : Records σ) (run : Run) (requests : List DispatchRequest) : Prop where
  held : Holds flow event runId r run
  coherent : run.Coherent e.settings.maxSteps
  requested : List.Forall₂ (Requested ⟨.ofFlow flow, event, .live⟩ runId) (enqueuedSteps run.log)
    requests
  charts : run.status ≠ .truncated → run.InRange → ∃ ids moves,
    run.Charts ⟨.ofFlow flow, event, .live⟩ first ids moves

variable {e : Engine} {flow : Flow} {event : Event} {first : List Move} {runId : String}
  {r : Records σ} {run : Run} {requests : List DispatchRequest}

/-- A run that has been executed is under way, for the event as the store reads it. Its first moves
are those for the event as it was given. -/
theorem Life.Completes.underway (scheduling : e.hasScheduler = true) (typed : event.Typed)
    {l : Life σ} (h : l.Completes e flow event run) :
    let told : Event := { event with orgId := flow.orgId }
    ∃ amount live, LawfulStore.reread σ told = some { told with amount := amount } ∧
      Underway e flow { told with amount := amount } (e.opening flow told) (l.runId e)
        (l.begun e flow event).records live (requestsOf (l.begun e flow event).deeds) := by
  intro told
  obtain ⟨live, hlive⟩ := h.executed
  obtain ⟨amount, hread⟩ := LawfulStore.exists_reread (σ := σ) told typed
  have hheld := holds_of_runFlow h.stored h.fresh hread hlive
  have hrun : live = (e.draft flow event .live l.source (l.runId e) l.clock).run :=
    run_of_runFlow hlive
  have hid : live.id = l.runId e := by rw [hrun]; rfl
  cases Engine.executed_runFlow h.lasting e l.clock flow event .live l.source l.records with
  | refused problem write answer nothing => cases answer.symm.trans hlive
  | written write answer orgId mirror =>
    refine ⟨amount, { live with triggerEvent := { told with amount := amount } }, hread,
      hid ▸ hheld, ?_, ?_, fun uncut inRange => ?_⟩
    · exact (hrun ▸ Engine.coherent_draft rfl flow event .live l.source (l.runId e) l.clock :
        live.Coherent e.settings.maxSteps).of_event
    · rw [requested_of_amount]
      exact hrun ▸ mirror.requested
    · obtain ⟨ids, moves, hcharts, hfirst⟩ := hrun ▸
        e.charts_draft flow event .live l.source (l.runId e) l.clock (hrun ▸ uncut) (hrun ▸ inRange)
      obtain ⟨rfl, rfl⟩ := hfirst scheduling
      exact ⟨[], _, hcharts.of_event _⟩

namespace Underway

omit [LawfulStore σ] in
theorem of_untouched (h : Underway e flow event first runId r run requests) {o : Outcome σ Run}
    (nothing : Untouched r.store o) :
    Underway e flow event first runId o.records run (requests ++ requestsOf o.deeds) := by
  rw [nothing.deeds]
  refine ⟨⟨?_, ?_, h.held.id, h.held.flowId, h.held.orgId, h.held.event⟩, h.coherent, ?_, h.charts⟩
  · rw [nothing.store]
    exact h.held.listed
  · rw [nothing.store]
    exact h.held.told
  · exact (List.append_nil requests).symm ▸ h.requested

/-- Whatever a call to resume a run comes to, the run stays under way. -/
theorem resume (h : Underway e flow event first runId r run requests) {w : Surroundings}
    (lasting : w.Lasting) (clock now : Instant) : ∃ run',
      Underway e flow event first runId (e.resumeDue w clock runId now none r).records run'
        (requests ++ requestsOf (e.resumeDue w clock runId now none r).deeds) := by
  cases Engine.resumed_resumeDue lasting e clock runId now none r with
  | unread problem read nothing => exact ⟨run, h.of_untouched nothing⟩
  | settled stored read status nothing => exact ⟨run, h.of_untouched nothing⟩
  | early stored read due answer nothing => exact ⟨run, h.of_untouched nothing⟩
  | flowless stored read problem lookup nothing => exact ⟨run, h.of_untouched nothing⟩
  | unmatched problem race nothing => exact ⟨run, h.of_untouched nothing⟩
  | refused stored read c continued flow' met race problem write nothing =>
    obtain rfl : r.store = met := Except.ok.inj race
    exact ⟨run, h.of_untouched nothing⟩
  | written stored read status due c continued flow' lookup met race run' draft write answer
      continues mirror =>
    -- The only exit at which the records change: what is written is the draft of the stored run.
    have hread := World.getRun_of_findRun read
    obtain rfl : run = stored := Except.ok.inj (h.held.told.symm.trans hread)
    have hlisted : Store.getFlow run.orgId run.flowId r.store = .ok (some flow) := by
      rw [h.held.orgId, h.held.flowId]
      exact h.held.listed
    obtain rfl : some flow = flow' :=
      Except.ok.inj (hlisted.symm.trans (World.getFlow_of_findFlow lookup))
    have hcall : e.resumption? w clock runId now r = some ⟨c, now⟩ := by
      simp only [Engine.resumption?, hread, continued, answer, Option.map_some]
    obtain ⟨-, -, hheld⟩ := h.held.resume hcall
    obtain rfl := draft
    have hcrun : c.run = run := by rw [(Run.continuation_eq_some_iff.1 continued).2.2]
    have hjourney : c.journey (some flow) = ⟨.ofFlow flow, event, .live⟩ := by
      rw [Continuation.journey, hcrun, h.held.event]
      rfl
    refine ⟨_, hheld, ?_, ?_, fun uncut inRange => ?_⟩
    · exact Continuation.coherent_draft (hcrun ▸ h.coherent) (hcrun ▸ status) rfl (some flow) now
        clock
    · obtain ⟨added, hadded⟩ := mirror.log
      have hrequested := mirror.requested
      rw [hheld.id, hheld.event, ← hadded, List.drop_left] at hrequested
      rw [← hadded, enqueuedSteps_append]
      exact List.rel_append h.requested hrequested
    · have hopen : run.status ≠ .truncated := by rw [status]; decide
      have hrange : run.InRange := fun step hstep => inRange step (mirror.log.subset hstep)
      obtain ⟨ids, moves, hcharts⟩ := h.charts hopen hrange
      exact hcharts.resume continued hjourney e clock uncut inRange

/-- Calls to resume a run, whenever they come, leave it under way. -/
theorem resumeEach (h : Underway e flow event first runId r run requests) (calls : List Recall)
    (lasting : ∀ call ∈ calls, call.surroundings.Lasting) : ∃ run',
      Underway e flow event first runId (e.resumeEach runId calls r).1 run'
        (requests ++ requestsOf (e.resumeEach runId calls r).2) := by
  induction calls generalizing r run requests with
  | nil => exact ⟨run, by simpa [Engine.resumeEach, requestsOf] using h⟩
  | cons call rest ih =>
    obtain ⟨run', hrun'⟩ := h.resume (lasting call List.mem_cons_self) call.clock call.now
    obtain ⟨run'', hrun''⟩ := ih hrun' fun other hother =>
      lasting other (List.mem_cons_of_mem _ hother)
    rw [List.append_assoc, ← requestsOf_append] at hrun''
    exact ⟨run'', hrun''⟩

end Underway

/-- A run that is complete charts an exploration with nothing left of it, and requests have been made
for all its enrollments. -/
theorem Life.Completes.charts (scheduling : e.hasScheduler = true) (typed : event.Typed)
    {l : Life σ} (h : l.Completes e flow event run) :
    let told : Event := { event with orgId := flow.orgId }
    run.flowId = flow.id ∧ run.pending = [] ∧
      (∃ amount ids moves, LawfulStore.reread σ told = some { told with amount := amount } ∧
        run.Charts ⟨.ofFlow flow, { told with amount := amount }, .live⟩ (e.opening flow told) ids
          moves) ∧
      List.Forall₂ (Requested ⟨.ofFlow flow, told, .live⟩ (l.runId e)) (enqueuedSteps run.log)
        (requestsOf (l.ended e flow event).2) := by
  intro told
  obtain ⟨amount, live, hread, hlive⟩ := h.underway scheduling typed
  obtain ⟨last, hlast⟩ := hlive.resumeEach l.calls h.lasting_calls
  rw [← requestsOf_append] at hlast
  obtain rfl : last = run := Except.ok.inj (hlast.held.told.symm.trans h.told)
  refine ⟨hlast.held.flowId, ?_, ?_, ?_⟩
  · by_contra hpending
    have hterminal := h.terminal
    rw [hlast.coherent.waiting.2 hpending] at hterminal
    cases hterminal
  · obtain ⟨ids, moves, hcharts⟩ := hlast.charts h.uncut h.inRange
    exact ⟨amount, ids, moves, hread, hcharts⟩
  · have hrequested := hlast.requested
    rwa [requested_of_amount] at hrequested

end

/-- Two live runs of a flow for an event that complete have logged the same marks and asked for the
same enrollments, but for the order, whenever they were resumed. A dry run has logged the same,
with enrollments carried out, where the store reads the event as one that meets the conditions of
the flow alike. -/
theorem outcome_independent_of_schedule {σ : Type} [Store σ] [LawfulStore σ] {e : Engine}
    (scheduling : e.hasScheduler = true) {flow : Flow} {event : Event} (typed : event.Typed)
    {l l' : Life σ} {run run' : Run} (completes : l.Completes e flow event run)
    (completes' : l'.Completes e flow event run') :
    (run.log.map Step.mark).Perm (run'.log.map Step.mark) ∧
      ((requestsOf (l.ended e flow event).2).map DispatchRequest.matter).Perm
        ((requestsOf (l'.ended e flow event).2).map DispatchRequest.matter) ∧
      (LawfulStore.Serves σ flow { event with orgId := flow.orgId } →
        ∀ (τ : Type) [Store τ] (r : Records τ) (w : Surroundings) (clock : Instant)
          (source : RunSource) (dry : Run),
          (e.runFlow w clock flow event .dryRun source r).answer = .ok dry →
          dry.status ≠ .truncated → dry.InRange →
            ((run.log.map Step.mark).map Mark.foretold).Perm (dry.log.map Step.mark)) := by
  obtain ⟨hflow, hpending, ⟨amount, ids, moves, hread, hcharts⟩, hrequested⟩ :=
    completes.charts scheduling typed
  obtain ⟨hflow', hpending', ⟨amount', ids', moves', hread', hcharts'⟩, hrequested'⟩ :=
    completes'.charts scheduling typed
  rw [← Option.some.inj (hread.symm.trans hread')] at hcharts'
  have hmarks := hcharts.marks_perm hcharts' hpending hpending' (hflow.trans hflow'.symm)
  refine ⟨hmarks, ?_, fun served τ _ r w clock source dry tried uncut inRange => ?_⟩
  · rw [matter_of_requested hrequested, matter_of_requested hrequested']
    exact (hmarks.filter _).map _
  · obtain ⟨read, hserved, hstands⟩ := served
    obtain rfl := Option.some.inj (hserved.symm.trans hread)
    obtain ⟨moves'', hstood⟩ := hcharts.stand_in hstands
    obtain rfl := run_of_runFlow tried
    obtain ⟨idsDry, movesDry, hdry, -⟩ :=
      e.charts_draft flow event .dryRun source _ clock uncut inRange
    exact hstood.foretold_perm hdry hpending (e.draft_dryRun flow event source _ clock).1 hflow
      (e.fits_opening flow _)

namespace relay

/-- The life of a run that is resumed at some hours. -/
def resumedAt (hours : List Nat) : Life MemoryStore :=
  ⟨stored, .calm, .epoch, .manual, hours.map fun hour => ⟨.calm, .hour hour, .hour hour⟩⟩

/-- The marks of the run and of the dry run, up to the order of the last two. -/
def waited : List Mark := [⟨"t", some .trigger, .evaluated⟩, ⟨"w1", some .wait, .waited⟩,
  ⟨"w2", some .wait, .waited⟩, ⟨"w3", some .wait, .waited⟩]

theorem ended_late : (Store.getRun "run1" ((resumedAt [5, 6]).ended .numbered relay event).1.store).map
    (fun run => (run.status, run.log.map Step.mark)) = .ok (.completed,
      waited ++ [⟨"b", some .enroll, .enqueued⟩, ⟨"a", some .enroll, .enqueued⟩]) := by cbv

theorem ended_timely :
    (Store.getRun "run1" ((resumedAt [1, 9]).ended .numbered relay event).1.store).map
      (fun run => (run.status, run.log.map Step.mark)) = .ok (.completed,
        waited ++ [⟨"a", some .enroll, .enqueued⟩, ⟨"b", some .enroll, .enqueued⟩]) := by cbv

theorem marks_dry : (dry.status, dry.log.map Step.mark) = (.dryRun,
    waited ++ [⟨"a", some .enroll, .executed⟩, ⟨"b", some .enroll, .executed⟩]) := by cbv

theorem completes_resumedAt {hours : List Nat} {marks : List Mark}
    (ended : (Store.getRun "run1" ((resumedAt hours).ended .numbered relay event).1.store).map
      (fun run => (run.status, run.log.map Step.mark)) = .ok (.completed, marks))
    (unskipped : ∀ mark ∈ marks, mark.nodeKind = some .wait → mark.action ≠ .skipped) :
    ∃ run, (resumedAt hours).Completes .numbered relay event run ∧ run.log.map Step.mark = marks := by
  have hcalm : Surroundings.calm.Lasting := fun _ => DispatchFate.noConfusion
  cases hrun : Store.getRun "run1" ((resumedAt hours).ended .numbered relay event).1.store with
  | error problem =>
    rw [hrun] at ended
    cases ended
  | ok run =>
    rw [hrun] at ended
    obtain ⟨hstatus, hmarks⟩ := Prod.mk.inj (Except.ok.inj ended)
    have hid : (resumedAt hours).runId .numbered = "run1" := by cbv
    refine ⟨run, ⟨rfl, rfl, hcalm, ?_, ⟨live, answer_live⟩, hid ▸ hrun, ?_, ?_, ?_⟩, hmarks⟩
    · intro call hcall
      obtain ⟨hour, -, rfl⟩ := List.mem_map.1 hcall
      exact hcalm
    · rw [hstatus]
      rfl
    · rw [hstatus]
      decide
    · exact not_outOfRange_of_marks (hmarks ▸ unskipped)

end relay

open relay in
/-- Resumed after five and six hours the run enrolls in another order than after one and nine hours,
and in no more and no fewer sequences. -/
theorem outcome_independent_of_schedule_relay : ∃ run run',
    (resumedAt [5, 6]).Completes .numbered relay event run ∧
    (resumedAt [1, 9]).Completes .numbered relay event run' ∧
    run.log.map Step.mark ≠ run'.log.map Step.mark ∧
    (run.log.map Step.mark).Perm (run'.log.map Step.mark) ∧
    ((requestsOf ((resumedAt [5, 6]).ended .numbered relay event).2).map
      DispatchRequest.matter).Perm
        ((requestsOf ((resumedAt [1, 9]).ended .numbered relay event).2).map
          DispatchRequest.matter) ∧
    ((run.log.map Step.mark).map Mark.foretold).Perm (dry.log.map Step.mark) := by
  obtain ⟨run, hcompletes, hmarks⟩ := completes_resumedAt ended_late (by decide)
  obtain ⟨run', hcompletes', hmarks'⟩ := completes_resumedAt ended_timely (by decide)
  obtain ⟨hsame, hrequests, hdry⟩ :=
    outcome_independent_of_schedule rfl typed hcompletes hcompletes'
  obtain ⟨hstatus, hmarks''⟩ := Prod.mk.inj marks_dry
  have huncut : dry.status ≠ .truncated := by rw [hstatus]; decide
  have hrange : dry.InRange := not_outOfRange_of_marks (by rw [hmarks'']; decide)
  refine ⟨run, run', hcompletes, hcompletes', ?_, hsame, hrequests,
    hdry (.of_tells rfl) MemoryStore stored .calm .epoch .manual dry answer_dry huncut hrange⟩
  rw [hmarks, hmarks']
  decide

open threshold in
/-- The store reads the amount as one that is not large. So the run comes to its end without the
enrollment, which is in the log of the dry run. -/
theorem reread_amount_sways :
    let life : Life TableStore :=
      ⟨stored, .calm, .epoch, .manual, [⟨.calm, .hour 1, .hour 1⟩]⟩
    ∃ run, life.Completes .numbered threshold (event written) run ∧
      (Engine.numbered.runFlow .calm .epoch threshold (event written) .dryRun .manual stored).answer =
        .ok (dry written) ∧
      (dry written).status ≠ .truncated ∧ (dry written).InRange ∧
      ¬((run.log.map Step.mark).map Mark.foretold).Perm ((dry written).log.map Step.mark) := by
  intro life
  have hcalm : Surroundings.calm.Lasting := fun _ => DispatchFate.noConfusion
  obtain ⟨hcompleted, hmarks⟩ := Prod.mk.inj marks_last
  obtain ⟨hdry, hmarks'⟩ := Prod.mk.inj (marks_dry large_written)
  have hid : life.runId .numbered = "run1" := by decide
  have hended : (life.ended .numbered threshold (event written)).1 = resumed := by
    simp only [Life.ended, hid, life, Life.begun, Engine.resumeEach, resumed, executed]
  refine ⟨last, ⟨listed, rfl, hcalm, fun call hcall => ?_, ⟨_, answer_live⟩, ?_, ?_, ?_, ?_⟩,
    answer_dry, ?_, ?_, fun same => ?_⟩
  · rw [List.mem_singleton.1 hcall]
    exact hcalm
  · rw [hended, hid]
    exact holds_resumed.told
  · rw [hcompleted]
    rfl
  · rw [hcompleted]
    decide
  · exact not_outOfRange_of_marks (by rw [hmarks]; decide)
  · rw [hdry]
    decide
  · exact not_outOfRange_of_marks (by rw [hmarks']; decide)
  · have hlength := same.length_eq
    rw [hmarks, hmarks'] at hlength
    cases hlength

end Dunning
