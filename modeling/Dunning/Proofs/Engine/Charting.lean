import Dunning.Proofs.Engine.Coherent
import Dunning.Proofs.Walk.Chart
import Dunning.Proofs.Walk.Lockstep
import Dunning.Proofs.Walk.StandIn

/-!
# What a run has explored

The log of a run tells an exploration of its flow, and its points are those of the waits
met behind which it has not gone on yet. An execution begins the exploration and a
resumption takes it on, whichever points are due. When there is none left, the marks of
the log are settled but for their order, and so are the requests made for them.
-/
namespace Dunning

open WalkState

/-- The nodes from which a flow is walked for an event. -/
def Engine.starts (e : Engine) (flow : Flow) (event : Event) : List String :=
  (e.settings.matcher.matching flow event).map Node.id

/-- The moves of a run of a flow until it comes to the end of a wait. -/
def Engine.opening (e : Engine) (flow : Flow) (event : Event) : List Move :=
  (⟨.ofFlow flow, event, .live⟩ : Journey).course (e.starts flow event) []

/-- Whether all waits that a run tells of had an end. -/
def Run.InRange (run : Run) : Prop := ∀ step ∈ run.log, ¬step.OutOfRange

/-- The marks of a log that come before its exploration: without a start there is a remark only. -/
def Run.preface (run : Run) (first : List Move) : List Mark :=
  if first.isEmpty then [⟨run.flowId, none, .skipped⟩] else []

/-- A run that tells of an exploration. Of the waits met, those not taken have their points. -/
structure Run.Charts (run : Run) (j : Journey) (first : List Move) (ids : List String)
    (moves : List Move) : Prop where
  explored : j.Explored first ids moves
  log : run.log.map Step.mark = run.preface first ++ moves.flatMap (Move.marks j.mode)
  entered : ∀ id, id ∈ enteredIds run.log ↔ id ∈ Move.visits moves
  waits : (ids ++ run.pending.map ResumePoint.nodeId).Perm (moves.flatMap Move.waitIds)

namespace Journey

variable {j : Journey} {first moves : List Move} {ids : List String}

/-- Without first moves there is nothing to explore. -/
theorem Explored.eq_nil (h : j.Explored [] ids moves) : moves = [] := by
  induction h with
  | start => rfl
  | next before met ih =>
    rw [ih] at met
    cases List.subperm_nil.1 met

/-- Explorations make moves that fit the graph. -/
theorem Explored.fits (h : j.Explored first ids moves) (fits : ∀ m ∈ first, m.Fits j.graph) :
    ∀ m ∈ moves, m.Fits j.graph := by
  induction h with
  | start => exact fits
  | @next ids moves id before met ih =>
    intro m hm
    exact (List.mem_append.1 hm).elim (ih m) (j.fits_of_mem_course _ _ m)

/-- An exploration is one whether enrollments are carried out or not. -/
theorem Explored.of_mode {g : Graph} {event : Event} {mode : Mode}
    (h : (⟨g, event, mode⟩ : Journey).Explored first ids moves) (mode' : Mode) :
    (⟨g, event, mode'⟩ : Journey).Explored first ids moves := by
  induction h with
  | start => exact .start
  | @next ids moves id before met ih =>
    have htargets : (⟨g, event, mode⟩ : Journey).targets id =
        (⟨g, event, mode'⟩ : Journey).targets id := rfl
    rw [course_mode g event mode mode', htargets]
    exact .next ih met

end Journey

namespace Engine

theorem fits_opening (e : Engine) (flow : Flow) (event : Event) :
    ∀ m ∈ e.opening flow event, m.Fits (.ofFlow flow) :=
  Journey.fits_of_mem_course _ _ _

/-- Where a trigger matches there is something to explore. -/
theorem opening_ne_nil (e : Engine) {flow : Flow} {event : Event}
    (matched : (e.settings.matcher.matching flow event).isEmpty = false) :
    e.opening flow event ≠ [] := by
  cases htriggers : e.settings.matcher.matching flow event with
  | nil => simp [htriggers] at matched
  | cons trigger rest =>
    have hmem : trigger ∈ e.settings.matcher.matching flow event := htriggers ▸ List.mem_cons_self
    have hsome : (flow.node? trigger.id).isSome = true :=
      List.find?_isSome.2 ⟨trigger, (List.mem_filter.1 hmem).1, beq_self_eq_true trigger.id⟩
    obtain ⟨node, hnode⟩ := Option.isSome_iff_exists.1 hsome
    have hfound : (Graph.ofFlow flow).node? trigger.id = some node := by rwa [Graph.node?_ofFlow]
    have hcourse := Journey.course_of_new (j := ⟨.ofFlow flow, event, .live⟩) hfound
      (rest.map Node.id) (List.not_mem_nil : trigger.id ∉ [])
    rw [opening, starts, htriggers, List.map_cons, hcourse]
    exact List.cons_ne_nil _ _

end Engine

namespace Run.Charts

/-- A run that has not gone on behind a wait charts an exploration for any event, whichever event it
is told with. -/
theorem of_event {run : Run} {g : Graph} {event : Event} {mode : Mode} {first : List Move}
    (h : run.Charts ⟨g, event, mode⟩ first [] first) (told : Event) :
    { run with triggerEvent := told }.Charts ⟨g, told, mode⟩ first [] first :=
  ⟨.start, h.log, h.entered, h.waits⟩

/-- A run that charts an exploration for an event charts one for each event that this one stands
for. -/
theorem stand_in {run : Run} {flow : Flow} {event read : Event}
    (stands : read.StandsFor event flow) {mode : Mode} {first moves : List Move} {ids : List String}
    (h : run.Charts ⟨.ofFlow flow, read, mode⟩ first ids moves) :
    ∃ moves', run.Charts ⟨.ofFlow flow, event, mode⟩ first ids moves' := by
  obtain ⟨moves', hexplored, hsame⟩ := h.explored.stand_in stands
  exact ⟨moves', hexplored, Move.marks_wordless mode hsame ▸ h.log,
    Move.visits_wordless hsame ▸ h.entered, Move.waitIds_wordless hsame ▸ h.waits⟩

end Run.Charts

/-- The mark of a live run as a dry run foretells it. -/
def Mark.foretold (mark : Mark) : Mark :=
  if mark.action = .enqueued then { mark with action := .executed } else mark

theorem Move.map_foretold_marks {g : Graph} {moves : List Move} (fits : ∀ m ∈ moves, m.Fits g) :
    (moves.flatMap (marks .live)).map Mark.foretold = moves.flatMap (marks .dryRun) := by
  induction moves with
  | nil => rfl
  | cons m rest ih =>
    have hfirst : (m.marks .live).map Mark.foretold = m.marks .dryRun := by
      cases m with
      | note id node action detail =>
        obtain ⟨-, hactions⟩ := fits _ List.mem_cons_self
        rcases hactions with rfl | rfl | rfl <;> rfl
      | _ => rfl
    rw [List.flatMap_cons, List.map_append, hfirst, List.flatMap_cons,
      ih fun other hother => fits other (List.mem_cons_of_mem m hother)]

/-- The run of a state that charts an exploration and has nothing deferred. -/
theorem WalkState.Charted.charts {j : Journey} {first moves : List Move} {ids : List String}
    {s : WalkState} (h : Charted j first ids moves [] s) (nonempty : first ≠ [])
    (nothing : s.deferred = []) (accounted : s.Accounted) (hopen : s.truncated = false) {run : Run}
    (log : run.log = s.log) (pending : run.pending = s.pending) :
    run.Charts j first ids moves := by
  refine ⟨h.explored, ?_, fun id => ?_, ?_⟩
  · rw [log, h.log, Run.preface, List.isEmpty_eq_false_iff.2 nonempty]
    rfl
  · rw [log, ← accounted hopen, h.visited]
  · have hwaits := h.waits
    rwa [nothing, List.append_nil, List.nil_append, ← pending] at hwaits

/-- A state that charts an exploration charts one at the end of the drain, if it is not cut. -/
theorem WalkState.Charted.exists_drain {j : Journey} {first moves : List Move} {ids : List String}
    {s : WalkState} (h : Charted j first ids moves [] s) (hopen : (s.drain j).truncated = false)
    (inRange : (s.drain j).InRange) : ∃ ids' moves',
      (s.drain j).deferred = [] ∧ Charted j first ids' moves' [] (s.drain j) := by
  obtain ⟨ids', moves', ⟨-, hnothing, hend⟩ | hcut⟩ := h.drain (open_of_drain hopen) inRange
  · exact ⟨ids', moves', hnothing, hend⟩
  · cases hopen.symm.trans hcut.cut

variable {event : Event} {mode : Mode} {first moves : List Move} {ids : List String} {run : Run}

namespace Engine

/-- If no trigger matches there is nothing to explore, and the run says so. -/
theorem charts_of_unmatched (e : Engine) {flow : Flow} {event : Event}
    (unmatched : (e.settings.matcher.matching flow event).isEmpty = true) {runId : String}
    {clock : Instant} (hopen : (e.walkFlow flow event mode runId clock).truncated = false)
    (flowId : run.flowId = flow.id) (log : run.log = (e.walkFlow flow event mode runId clock).log)
    (pending : run.pending = (e.walkFlow flow event mode runId clock).pending) :
    run.Charts ⟨.ofFlow flow, event, mode⟩ (e.opening flow event) [] (e.opening flow event) := by
  let start := WalkState.start runId e.settings.maxSteps (e.suspends mode) clock
  have hopening : e.opening flow event = [] := by
    rw [opening, starts, List.isEmpty_iff.1 unmatched, List.map_nil, Journey.course_nil]
  have hwalk := e.walkFlow_of_unmatched unmatched mode runId clock
  -- With a limit of no steps even the remark is cut.
  have hroom : start.log.length < start.maxSteps := by
    refine Nat.lt_of_not_le fun hfull => ?_
    rw [hwalk, record_of_full rfl hfull] at hopen
    cases hopen
  rw [record_of_room rfl hroom] at hwalk
  rw [hopening]
  refine ⟨.start, ?_, fun id => ?_, ?_⟩
  · rw [log, hwalk, Run.preface, flowId]
    rfl
  · rw [log, hwalk]
    rfl
  · rw [pending, hwalk]
    rfl

/-- An execution that is not cut begins an exploration. Where a scheduler resumes it, it comes to the
end of no wait. -/
theorem charts_draft (e : Engine) (flow : Flow) (event : Event) (mode : Mode)
    (source : RunSource) (runId : String) (clock : Instant)
    (uncut : (e.draft flow event mode source runId clock).run.status ≠ .truncated)
    (inRange : (e.draft flow event mode source runId clock).run.InRange) : ∃ ids moves,
      (e.draft flow event mode source runId clock).run.Charts
        ⟨.ofFlow flow, { event with orgId := flow.orgId }, mode⟩
        (e.opening flow { event with orgId := flow.orgId }) ids moves ∧
      (e.suspends mode = true → ids = [] ∧
        moves = e.opening flow { event with orgId := flow.orgId }) := by
  let told : Event := { event with orgId := flow.orgId }
  let j : Journey := ⟨.ofFlow flow, told, mode⟩
  have hopen : (e.walkFlow flow told mode runId clock).truncated = false :=
    truncated_of_runStatus uncut
  cases hnone : (e.settings.matcher.matching flow told).isEmpty with
  | true => exact ⟨[], _, e.charts_of_unmatched hnone hopen rfl rfl rfl, fun _ => ⟨rfl, rfl⟩⟩
  | false =>
    let start := WalkState.start runId e.settings.maxSteps (e.suspends mode) clock
    have hwalk : e.walkFlow flow told mode runId clock =
        (start.walk j (e.starts flow told)).drain j := by
      rw [e.walkFlow_eq, begin, if_neg (by simp [hnone])]
      rfl
    have haccounted : (e.walkFlow flow told mode runId clock).Accounted :=
      (steady_accounted j).walkFlow fun _ _ => Iff.rfl
    have hrange : (e.walkFlow flow told mode runId clock).InRange := inRange
    rw [hwalk] at hopen haccounted hrange
    have hopening : j.course (e.starts flow told) [] = e.opening flow told :=
      Journey.course_mode ..
    have hcharted := charted_start (s := start) ⟨rfl, rfl, rfl, rfl⟩ (open_of_drain hopen)
      (hrange.of_prefix (log_prefix_drain j _))
    rw [hopening] at hcharted
    have hnonempty := e.opening_ne_nil hnone
    have hlog := congrArg log hwalk
    have hpending := congrArg pending hwalk
    cases hsuspends : e.suspends mode with
    | true =>
      have hstart : start.suspends j.mode = true := by
        obtain ⟨hlive, -⟩ := Bool.and_eq_true_iff.1 hsuspends
        exact Bool.and_eq_true_iff.2 ⟨hlive, hsuspends⟩
      have hnothing := (deferred_walk_of_suspends j (e.starts flow told) hstart rfl).2
      rw [drain_of_deferred_nil j hnothing] at hopen haccounted hlog hpending
      exact ⟨[], _, hcharted.charts hnonempty hnothing haccounted hopen hlog hpending,
        fun _ => ⟨rfl, rfl⟩⟩
    | false =>
      obtain ⟨ids, moves, hnothing, hdrained⟩ := hcharted.exists_drain hopen hrange
      exact ⟨ids, moves, hdrained.charts hnonempty hnothing haccounted hopen hlog hpending,
        fun h => absurd h Bool.false_ne_true⟩

end Engine

namespace Run.Charts

variable {j : Journey}

/-- A run that waits has made first moves. -/
theorem first_ne_nil (h : run.Charts j first ids moves) (pending : run.pending ≠ []) :
    first ≠ [] := by
  rintro rfl
  have hwaits := h.waits
  rw [h.explored.eq_nil, List.flatMap_nil, List.perm_nil, List.append_eq_nil_iff,
    List.map_eq_nil_iff] at hwaits
  exact pending hwaits.2

/-- The state from which a run goes on charts what the run does, and its due points are owed. -/
theorem charted_start (h : run.Charts j first ids moves) (nonempty : first ≠ [])
    {now : Instant} {c : Continuation} (due : run.continuation now = .ok (some c)) (e : Engine)
    (clock : Instant) :
    Charted j first ids moves (c.due.map ResumePoint.nodeId ++ []) (c.start e now clock) := by
  obtain ⟨-, -, hc⟩ := Run.continuation_eq_some_iff.1 due
  obtain rfl : c.run = run := by rw [hc]
  have hpoints : (c.due ++ c.later).Perm c.run.pending := by
    rw [hc]
    exact ((List.mergeSort_perm _ _).append_right _).trans (List.filter_append_perm _ _)
  refine ⟨h.explored, ?_, h.entered, ?_⟩
  · have hlog := h.log
    rw [Run.preface, List.isEmpty_eq_false_iff.2 nonempty] at hlog
    exact hlog
  · have hsplit := (hpoints.map ResumePoint.nodeId).append_left ids
    rw [List.map_append] at hsplit
    have hlater : (c.start e now clock).pending ++ (c.start e now clock).deferred = c.later :=
      List.append_nil _
    rw [hlater, List.append_nil]
    exact hsplit.trans h.waits

/-- A resumption that is not cut takes the exploration on, whichever points are due. -/
theorem resume (h : run.Charts j first ids moves) {now : Instant} {c : Continuation}
    (due : run.continuation now = .ok (some c)) {flow : Flow} (same : c.journey (some flow) = j)
    (e : Engine) (clock : Instant) (uncut : (c.draft e (some flow) now clock).run.status ≠ .truncated)
    (inRange : (c.draft e (some flow) now clock).run.InRange) :
    ∃ ids' moves', (c.draft e (some flow) now clock).run.Charts j first ids' moves' := by
  obtain ⟨-, ⟨p, hp, -⟩, -⟩ := Run.continuation_eq_some_iff.1 due
  have hnonempty := h.first_ne_nil (List.ne_nil_of_mem hp)
  let legs := c.due.foldl (fun s p => s.walkDownstream j p.nodeId) (c.start e now clock)
  have hwalk : c.walk e (some flow) now clock = legs.drain j := by
    subst same
    rfl
  have hopen : (c.walk e (some flow) now clock).truncated = false := truncated_of_runStatus uncut
  have haccounted : (c.walk e (some flow) now clock).Accounted :=
    (steady_accounted (c.journey (some flow))).continuation (c.accounted_start e now clock)
  have hrange : (c.walk e (some flow) now clock).InRange := inRange
  rw [hwalk] at hopen haccounted hrange
  obtain ⟨ids', moves', hcharted⟩ := (h.charted_start hnonempty due e clock).foldl
    (open_of_drain hopen) (hrange.of_prefix (log_prefix_drain j _))
  obtain ⟨ids'', moves'', hnothing, hdrained⟩ := hcharted.exists_drain hopen hrange
  exact ⟨ids'', moves'', hdrained.charts hnonempty hnothing haccounted hopen
    (congrArg WalkState.log hwalk) (congrArg WalkState.pending hwalk)⟩

/-- A run that waits for nothing has finished its exploration. -/
theorem finished (h : run.Charts j first ids moves) (nothing : run.pending = []) :
    ids.Perm (moves.flatMap Move.waitIds) := by
  have hwaits := h.waits
  rwa [nothing, List.map_nil, List.append_nil] at hwaits

variable {g : Graph} {run' : Run} {ids' : List String} {moves' : List Move}

/-- Two runs of a flow that wait for nothing tell the same, but for the order. -/
theorem marks_perm (h : run.Charts ⟨g, event, mode⟩ first ids moves)
    (h' : run'.Charts ⟨g, event, mode⟩ first ids' moves') (nothing : run.pending = [])
    (nothing' : run'.pending = []) (same : run.flowId = run'.flowId) :
    (run.log.map Step.mark).Perm (run'.log.map Step.mark) := by
  have hmoves := h.explored.flatMap_perm h'.explored (h.finished nothing) (h'.finished nothing')
    (Move.marks mode)
  have hpreface : run.preface first = run'.preface first := by rw [preface, preface, same]
  rw [h.log, h'.log, hpreface]
  exact hmoves.append_left _

/-- A live run that waits for nothing tells what a dry run foretells, but for the order. -/
theorem foretold_perm (h : run.Charts ⟨g, event, .live⟩ first ids moves)
    (h' : run'.Charts ⟨g, event, .dryRun⟩ first ids' moves') (nothing : run.pending = [])
    (nothing' : run'.pending = []) (same : run.flowId = run'.flowId)
    (fits : ∀ m ∈ first, m.Fits g) :
    ((run.log.map Step.mark).map Mark.foretold).Perm (run'.log.map Step.mark) := by
  have hmoves := (h.explored.of_mode .dryRun).flatMap_perm h'.explored (h.finished nothing)
    (h'.finished nothing') (Move.marks .dryRun)
  have hpreface : (run.preface first).map Mark.foretold = run'.preface first := by
    rw [preface, preface, same]
    split <;> rfl
  rw [h.log, h'.log, List.map_append, hpreface, Move.map_foretold_marks (h.explored.fits fits)]
  exact hmoves.append_left _

end Run.Charts

/-- What a request asks for, whichever run it is made for. -/
def DispatchRequest.matter (request : DispatchRequest) :
    String × String × Option String × Option String :=
  (request.nodeId, request.sequence, request.contactId, request.invoiceId)

/-- The matter of requests for a node. -/
def Journey.matter (j : Journey) (id : String) : String × String × Option String × Option String :=
  (id, match (j.graph.node? id).map Node.body with
    | some (.enroll e) => e.sequence
    | _ => "", j.event.contactId, j.event.invoiceId)

/-- The requests for enrollment steps are settled by the marks of the log. -/
theorem matter_of_requested {j : Journey} {runId : String} {log : List Step}
    {requests : List DispatchRequest}
    (h : List.Forall₂ (Requested j runId) (enqueuedSteps log) requests) :
    requests.map DispatchRequest.matter = ((log.map Step.mark).filter fun mark =>
      mark.action == .enqueued).map fun mark => j.matter mark.nodeId := by
  have hmarks : (log.map Step.mark).filter (fun mark => mark.action == .enqueued) =
      (enqueuedSteps log).map Step.mark := List.filter_map ..
  rw [hmarks, List.map_map]
  clear hmarks
  generalize enqueuedSteps log = steps at h ⊢
  induction h with
  | nil => rfl
  | @cons step request steps requests hfirst _ ih =>
    obtain ⟨node, e, found, hbody, hsequence⟩ := hfirst.sequence
    have hmatter : request.matter = j.matter step.mark.nodeId := by
      simp only [DispatchRequest.matter, Journey.matter, Step.mark, found, Option.map_some, hbody,
        hfirst.nodeId, hsequence, hfirst.contactId, hfirst.invoiceId]
    rw [List.map_cons, List.map_cons, ih, hmatter]
    rfl

end Dunning
