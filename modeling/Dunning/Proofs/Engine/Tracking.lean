import Dunning.Proofs.Engine.Idle
import Dunning.Proofs.Walk.Drain
import Dunning.Proofs.Walk.Limit
import Dunning.Proofs.Walk.StandIn

/-!
# A dry walk that tracks a live run

While a live run is resumed, a dry walk of the same flow can be taken along, leg by leg,
so that the points of the one are the deferred waits of the other. It is the dry run in
the midst of its drain, as long as the resumptions are timely.
-/
namespace Dunning

namespace WalkState

theorem walk_now (j : Journey) (agenda : List String) (s : WalkState) :
    (s.walk j agenda).now = s.now := by
  rcases walk_cases j agenda s with ⟨-, hsame⟩ | ⟨-, hall⟩ | ⟨-, made, m, rest, -, hcut, -⟩
  · rw [hsame]
  · rw [hall]
    rfl
  · rw [hcut]
    rfl

/-- A cut leaves nothing deferred. -/
theorem deferred_walk_of_cut (j : Journey) (agenda : List String) {s : WalkState}
    (cleared : s.truncated = true → s.deferred = []) (h : (s.walk j agenda).truncated = true) :
    (s.walk j agenda).deferred = [] := by
  rcases walk_cases j agenda s with ⟨hs, hsame⟩ | ⟨hs, hall⟩ | ⟨-, made, m, rest, -, hcut, -⟩
  · rw [hsame]
    exact cleared hs
  · rw [hall] at h
    cases hs.symm.trans h
  · rw [hcut]
    rfl

theorem deferred_legs_of_cut (j : Journey) (points : List ResumePoint) {s : WalkState}
    (cleared : s.truncated = true → s.deferred = []) (h : (legs j points s).truncated = true) :
    (legs j points s).deferred = [] := by
  induction points generalizing s with
  | nil => exact cleared h
  | cons p rest ih =>
    rw [legs] at h ⊢
    split
    · rename_i hcut
      exact cleared hcut
    · rename_i hopen
      rw [if_neg hopen] at h
      exact ih (deferred_walk_of_cut j _ fun hcut => absurd hcut hopen) h

/-- What walks keep, legs keep. -/
theorem Steady.legs {j : Journey} {P : WalkState → Prop} (h : Steady j P)
    (points : List ResumePoint) {s : WalkState} (hs : P s) : P (WalkState.legs j points s) := by
  induction points generalizing s with
  | nil => exact hs
  | cons p rest ih =>
    rw [WalkState.legs]
    split
    · exact hs
    · exact ih (h.walkDownstream p.nodeId (h.retime s.pending s.deferred p.resumeAt s (.refl _) hs))

/-- A timely resumption keeps in step with the legs of a dry walk. -/
theorem alike_legs (g : Graph) (event : Event) {points : List ResumePoint} {s t : WalkState}
    (h : Alike s t) (timely : (⟨g, event, .live⟩ : Journey).Timely s.now points s.visited) :
    Alike (points.foldl (fun s p => s.walkDownstream ⟨g, event, .live⟩ p.nodeId) s)
      (legs ⟨g, event, .dryRun⟩ points t) := by
  induction points generalizing s t with
  | nil => exact h
  | cons p rest ih =>
    rw [legs]
    split
    · rename_i hcut
      rw [foldl_walkDownstream_of_truncated _ _ (h.truncated.trans hcut)]
      exact h
    · have hstart : Alike s { t with now := p.resumeAt } :=
        ⟨h.log, h.visited, h.truncated, h.maxSteps, h.points, h.suspends, h.nothing⟩
      have hleg : Alike (s.walkDownstream ⟨g, event, .live⟩ p.nodeId)
          ({ t with now := p.resumeAt }.walkDownstream ⟨g, event, .dryRun⟩ p.nodeId) :=
        alike_walk g event _ hstart (timely.1.imp_left Eq.symm)
      rw [List.foldl_cons]
      cases hcut : (s.walkDownstream ⟨g, event, .live⟩ p.nodeId).truncated with
      | true =>
        rw [foldl_walkDownstream_of_truncated _ _ hcut,
          legs_of_truncated _ _ (hleg.truncated.symm.trans hcut)]
        exact hleg
      | false =>
        refine ih hleg ?_
        have hnow : (s.walkDownstream ⟨g, event, .live⟩ p.nodeId).now = s.now := walk_now _ _ _
        have hvisited : (s.walkDownstream ⟨g, event, .live⟩ p.nodeId).visited = _ :=
          congrArg visited (walk_of_open _ _ hcut).2
        rw [hnow, hvisited]
        exact timely.2

/-- What the status of a run tells of its walk. -/
theorem status_of_alike {s t : WalkState} (h : Alike s t) : s.runStatus .live =
    if t.truncated then .truncated else if t.deferred.isEmpty then .completed else .waiting := by
  rw [runStatus, h.truncated, h.points]
  rfl

/-- A remark is made by both. -/
theorem Alike.record {s t : WalkState} (h : Alike s t) {live dry : Step}
    (remark : live.Foretold dry) :
    Alike (s.record live) (t.record dry) := by
  cases ht : t.truncated with
  | true =>
    rw [record_of_truncated (h.truncated.trans ht), record_of_truncated ht]
    exact h
  | false =>
    have hs : s.truncated = false := h.truncated.trans ht
    have hlength := h.log.length_eq
    rcases Nat.lt_or_ge t.log.length t.maxSteps with hroom | hfull
    · rw [record_of_room hs (by rw [hlength, h.maxSteps]; exact hroom), record_of_room ht hroom]
      exact ⟨List.rel_append h.log (.cons remark .nil), h.visited, h.truncated, h.maxSteps,
        h.points, h.suspends, h.nothing⟩
    · rw [record_of_full hs (by rw [hlength, h.maxSteps]; exact hfull), record_of_full ht hfull,
        remark.nodeId]
      exact h.cut dry.nodeId

end WalkState

open WalkState

/-- A live run, and a dry walk of its flow that has come as far. -/
structure Tracks (e : Engine) (flow : Flow) (run : Run) (t : WalkState) : Prop where
  log : List.Forall₂ Step.Foretold run.log t.log
  points : run.pending = t.deferred
  status : run.status =
    if t.truncated then .truncated else if t.deferred.isEmpty then .completed else .waiting
  maxSteps : t.maxSteps = e.settings.maxSteps
  accounted : t.Accounted
  cleared : t.truncated = true → t.deferred = []

namespace Tracks

variable {e : Engine} {flow : Flow} {run : Run} {t : WalkState}

/-- It does not matter with which event the run is told. -/
theorem of_event (h : Tracks e flow run t) (event : Event) :
    Tracks e flow { run with triggerEvent := event } t :=
  ⟨h.log, h.points, h.status, h.maxSteps, h.accounted, h.cleared⟩

/-- A run that waits is tracked by a walk that has not been cut and has points to go on behind. -/
theorem of_waiting (h : Tracks e flow run t) (waiting : run.status = .waiting) :
    t.truncated = false ∧ t.deferred ≠ [] := by
  have hstatus := h.status
  rw [waiting] at hstatus
  split at hstatus
  · cases hstatus
  · rename_i hopen
    split at hstatus
    · cases hstatus
    · rename_i hsome
      exact ⟨by simpa using hopen, by simpa using hsome⟩

/-- A run that is over is tracked by a walk that is over. -/
theorem drain_of_over (h : Tracks e flow run t) (ended : run.status ≠ .waiting) (j : Journey) :
    t.drain j = t := by
  cases ht : t.truncated with
  | true => exact drain_of_truncated j ht
  | false =>
    refine drain_of_deferred_nil j ?_
    by_contra hsome
    refine ended (h.status.trans ?_)
    rw [if_neg (by simp [ht]), if_neg (by simpa using hsome)]

/-- The state from which a run goes on is that of the walk without the points that are due. -/
theorem alike_start (scheduling : e.hasScheduler = true) (h : Tracks e flow run t)
    (waiting : run.status = .waiting) {c : Continuation} (same : c.run = run)
    (now clock : Instant) :
    Alike (c.start e now clock) { t with deferred := c.later } where
  log := by
    rw [c.start_log, same]
    exact h.log
  visited id := by
    have hids : (c.start e now clock).visited = enteredIds run.log := by rw [← same]; rfl
    rw [hids, enteredIds_of_foretold h.log]
    exact (h.accounted (h.of_waiting waiting).1 id).symm
  truncated := (h.of_waiting waiting).1.symm
  maxSteps := h.maxSteps.symm
  points := rfl
  suspends := scheduling
  nothing := rfl

/-- A timely resumption is tracked by the legs behind the points that are due. They are the next
part of the drain, and leave less to do. -/
theorem resume (scheduling : e.hasScheduler = true) (h : Tracks e flow run t) {event : Event}
    (told : run.triggerEvent = event) {now : Instant} {c : Continuation}
    (due : run.continuation now = .ok (some c)) (timely : (⟨.ofFlow flow, event, .live⟩ :
      Journey).Timely now c.due (enteredIds run.log)) (clock : Instant) :
    ∃ t', Tracks e flow (c.draft e (some flow) now clock).run t' ∧
      t.drain ⟨.ofFlow flow, event, .dryRun⟩ = t'.drain ⟨.ofFlow flow, event, .dryRun⟩ ∧
      t'.load (.ofFlow flow) < t.load (.ofFlow flow) := by
  obtain ⟨hwaiting, ⟨p, hp, hpast⟩, hc⟩ := Run.continuation_eq_some_iff.1 due
  obtain ⟨hopen, -⟩ := h.of_waiting hwaiting
  have hcrun : c.run = run := by rw [hc]
  have hdue : c.due = dueAt now t.deferred := by rw [hc, ← h.points]; rfl
  have hlater : c.later = laterThan now t.deferred := by rw [hc, ← h.points]; rfl
  have hstart := h.alike_start scheduling hwaiting hcrun now clock
  have hvisited : (c.start e now clock).visited = enteredIds run.log := by rw [← hcrun]; rfl
  have hlegs := alike_legs (.ofFlow flow) event hstart (hvisited ▸ timely)
  have hwalk : c.walk e (some flow) now clock =
      c.due.foldl (fun s p => s.walkDownstream ⟨.ofFlow flow, event, .live⟩ p.nodeId)
        (c.start e now clock) := by
    simp only [Continuation.walk, hcrun, told]
    exact drain_of_deferred_nil _ hlegs.nothing
  refine ⟨legs ⟨.ofFlow flow, event, .dryRun⟩ c.due { t with deferred := c.later }, ?_, ?_, ?_⟩
  · rw [← hwalk] at hlegs
    refine ⟨hlegs.log, hlegs.points, status_of_alike hlegs, ?_, ?_, ?_⟩
    · exact (steady_maxSteps _ _).legs c.due h.maxSteps
    · exact (steady_accounted _).legs c.due h.accounted
    · exact deferred_legs_of_cut _ c.due fun hcut => by cases hopen.symm.trans hcut
  · have htimely : (⟨.ofFlow flow, event, .dryRun⟩ : Journey).Timely now (dueAt now t.deferred)
        t.visited := by
      rw [← hdue]
      refine timely.congr .dryRun fun id => ?_
      rw [enteredIds_of_foretold h.log]
      exact (h.accounted hopen id).symm
    have hdrain := drain_eq_legs (j := ⟨.ofFlow flow, event, .dryRun⟩) rfl
      (List.append_nil t.deferred).symm (fun _ hq => by cases hq) h.cleared htimely
    rw [hdrain, List.append_nil, ← hdue, ← hlater]
  · refine Nat.lt_of_le_of_lt (load_legs_le _ c.due _) ?_
    have hfewer : c.later.length < t.deferred.length := by
      rw [hlater]
      exact List.length_filter_lt_length_iff_exists.2 ⟨p, h.points ▸ hp, by simp [hpast]⟩
    simp only [load, unvisited]
    omega

end Tracks

theorem deferred_begin_of_cut (e : Engine) (flow : Flow) (event : Event) (mode : Mode)
    (runId : String) (clock : Instant)
    (h : (e.begin flow event mode runId clock).truncated = true) :
    (e.begin flow event mode runId clock).deferred = [] := by
  simp only [Engine.begin] at h ⊢
  split at h
  · rename_i hnone
    rw [if_pos hnone]
    exact List.length_eq_zero_iff.1 (Nat.le_zero.1 (record_deferred_le _ _))
  · rename_i hsome
    rw [if_neg hsome]
    exact deferred_walk_of_cut _ _ (fun hcut => by cases hcut) h

/-- A live run that waits for nothing yet is tracked by the dry walk before its drain. -/
theorem Engine.tracks_draft {e : Engine} (scheduling : e.hasScheduler = true) (flow : Flow)
    (event : Event) (source : RunSource) (runId runId' : String) (clock : Instant) :
    Tracks e flow (e.draft flow event .live source runId clock).run
      (e.begin flow { event with orgId := flow.orgId } .dryRun runId' clock) := by
  let told : Event := { event with orgId := flow.orgId }
  have hstart : Alike (WalkState.start runId e.settings.maxSteps (e.suspends .live) clock)
      (WalkState.start runId' e.settings.maxSteps (e.suspends .dryRun) clock) :=
    ⟨.nil, fun _ => Iff.rfl, rfl, rfl, rfl, scheduling, rfl⟩
  have halike :
      Alike (e.begin flow told .live runId clock) (e.begin flow told .dryRun runId' clock) := by
    simp only [Engine.begin]
    split
    · exact hstart.record (Step.foretold_of_same .skipped (by decide) rfl rfl rfl rfl)
    · exact alike_walk (.ofFlow flow) told _ hstart (.inl rfl)
  have hdraft : e.walkFlow flow told .live runId clock = e.begin flow told .live runId clock := by
    rw [e.walkFlow_eq]
    exact drain_of_deferred_nil _ halike.nothing
  have hstatus := status_of_alike halike
  have hlog := halike.log
  have hpoints := halike.points
  rw [← hdraft] at hstatus hlog hpoints
  refine ⟨hlog, hpoints, hstatus, ?_, ?_, ?_⟩
  · exact (steady_maxSteps ⟨.ofFlow flow, told, .dryRun⟩ _).begin rfl
  · exact (steady_accounted ⟨.ofFlow flow, told, .dryRun⟩).begin fun _ _ => Iff.rfl
  · exact deferred_begin_of_cut e flow told .dryRun runId' clock

/-- A run that is over and tracked to the end of the drain has gone as the dry run foretells. The
drain may be that for an event which stands for the one of the dry run. -/
theorem Tracks.foretold {e : Engine} {flow : Flow} {run : Run} {t : WalkState}
    (h : Tracks e flow run t) (ended : run.status ≠ .waiting) (event : Event) (source : RunSource)
    (runId : String) (clock : Instant) {read : Event}
    (stands : read.StandsFor { event with orgId := flow.orgId } flow)
    (rest : (e.begin flow { event with orgId := flow.orgId } .dryRun runId clock).drain
      ⟨.ofFlow flow, read, .dryRun⟩ = t.drain ⟨.ofFlow flow, read, .dryRun⟩) :
    List.Forall₂ Step.Foretold run.log (e.draft flow event .dryRun source runId clock).run.log ∧
      (run.status = .truncated ↔
        (e.draft flow event .dryRun source runId clock).run.status = .truncated) := by
  let dry := e.walkFlow flow { event with orgId := flow.orgId } .dryRun runId clock
  have hend : t.wordless = dry.wordless := by
    simp only [dry, e.walkFlow_eq]
    rw [← (parallel_wordless stands .dryRun).drain rfl, rest, h.drain_of_over ended]
  have hstatus : (e.draft flow event .dryRun source runId clock).run.status = t.runStatus .dryRun :=
    (eq_of_silent wordless (f := fun s => s.runStatus .dryRun) (fun _ => rfl) hend).symm
  refine ⟨foretold_of_wordless h.log (congrArg WalkState.log hend), ?_⟩
  rw [hstatus, h.status, runStatus]
  cases t.truncated with
  | true => simp
  | false => cases t.deferred.isEmpty <;> cases t.pending.isEmpty <;> simp [Mode.completedStatus]

end Dunning
