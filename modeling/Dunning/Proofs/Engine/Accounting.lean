import Dunning.Proofs.Engine.OrderLaw
import Dunning.Proofs.Engine.Wakeups
import Dunning.Proofs.Walk.Suspension

/-!
# The account of a resumption

A resumption divides the points of the run by their time. It goes on behind those that are
due, in the order of their times, keeps the others as they are, and puts the points of new
waits behind them. Only these are handed to the scheduler. A run that is cut or whose flow
is gone is closed, and nothing is left of its points.
-/
namespace Dunning

open WalkState

namespace ResumePoint

/-- The points of a list that are due at a time, in the order of their times, and as they stand in
the list where their times are equal. -/
structure DueInOrder (now : Instant) (points due : List ResumePoint) : Prop where
  perm : due.Perm (points.filter fun p => p.resumeAt.le now)
  ordered : due.Pairwise Before
  stable : ∀ time, due.filter (fun p => p.resumeAt = time) =
    (points.filter fun p => p.resumeAt.le now).filter fun p => p.resumeAt = time

theorem dueInOrder (now : Instant) (points : List ResumePoint) :
    DueInOrder now points (inOrder (points.filter fun p => p.resumeAt.le now)) := by
  refine ⟨List.mergeSort_perm _ _, List.pairwise_mergeSort trans_le total_le _, fun time => ?_⟩
  refine filter_mergeSort trans_le total_le (fun p q hp hq => ?_) _
  rw [of_decide_eq_true hp, of_decide_eq_true hq, Instant.le_refl]

end ResumePoint

namespace Engine

/-- Wake-ups are scheduled in order, all of them unless the scheduler breaks down. -/
theorem wakeups_scheduleAll (w : Surroundings) (runId : String) (points : List ResumePoint) :
    (scheduleAll w runId points).1.filterMap Act.wakeup? <+: points.map (Prod.mk runId) := by
  induction points with
  | nil => simp [scheduleAll]
  | cons p rest ih => cases h : w.schedule runId p <;> simp [scheduleAll, h, Act.wakeup?, ih]

/-- A hand-off schedules nothing but the wake-ups of its draft. -/
theorem wakeups_of_handOff (e : Engine) (w : Surroundings) (notice : Notice) (d : Draft) :
    (e.handOff w notice d).filterMap (fun deed => deed.act.wakeup?) <+:
      d.wakeups.map (Prod.mk d.run.id) := by
  have hsent : (dispatchAll w d.requests).1.filterMap Act.wakeup? = [] :=
    List.filterMap_eq_nil_iff.2 (dispatchAll_wakeups w d.requests).1
  have hwoken := wakeups_scheduleAll w d.run.id d.wakeups
  have hnotice : ∀ notice : Notice, Act.wakeup? (.notified notice) = none := fun _ => rfl
  unfold handOff sideEffects
  cases hlasts : (dispatchAll w d.requests).2 && e.hasScheduler with
  | false =>
    simp only [hlasts, Bool.false_eq_true, if_false]
    split <;> simp [List.filterMap_map, hsent, hnotice]
  | true =>
    simp only [hlasts, if_true]
    split <;> simp [List.filterMap_map, hsent, hnotice, hwoken]

end Engine

/-- What a resumption of a run with some points due comes to. It has read the run as a continuation,
and the flow if it is still there. -/
structure Engine.Accounts (e : Engine) (w : Surroundings) (clock now : Instant) (run : Run)
    (c : Continuation) (flow : Option Flow) (after : Run) (deeds : List Deed) : Prop where
  read : c.run = run ∧ run.status = .waiting
  /-- The points that are due, the earliest first and those of one time as they were stored. No node
  is among them twice. -/
  due : ResumePoint.DueInOrder now run.pending c.due ∧ (c.due.map ResumePoint.nodeId).Nodup
  later : c.later = run.pending.filter fun p => !p.resumeAt.le now
  /-- The run goes on behind all of them in this order, up to a cut. -/
  walked : ∀ f, flow = some f → ∃ walked left behind, c.due = walked ++ left ∧
    WentOn (c.journey flow) walked (c.start e now clock) behind ∧
    (left ≠ [] → after.status = .truncated) ∧
    c.walk e flow now clock = behind.drain (c.journey flow)
  draft : after = (c.draft e flow now clock).run ∧
    deeds = e.handOff w (World.resumedNotice (c.draft e flow now clock)) (c.draft e flow now clock)
  /-- A run that is not closed keeps its later points. The new ones stand for the waits that it came
  to, in the order of the log, at none of which it waited or was before. They are handed over. -/
  going : flow.isSome = true → after.status ≠ .truncated → ∃ told new, after.log = run.log ++ told ∧
    after.pending = c.later ++ new ∧ (c.draft e flow now clock).wakeups = new ∧
    List.Forall₂ (Awaited (c.journey flow) now) (if e.hasScheduler then waitedSteps told else []) new ∧
    ∀ p ∈ new, p.nodeId ∉ run.pending.map ResumePoint.nodeId ∧ p.nodeId ∉ run.log.map Step.nodeId
  /-- A run that is closed waits for nothing more. -/
  closed : flow = none ∨ after.status = .truncated → after.pending = [] ∧
    (c.draft e flow now clock).wakeups = [] ∧ after.status.isTerminal = true
  /-- Nothing is scheduled but what was handed over, in order, and all of it unless someone breaks
  down. -/
  scheduled : deeds.filterMap (fun deed => deed.act.wakeup?) <+:
    (c.draft e flow now clock).wakeups.map (Prod.mk run.id)
  same : after.Continues run
  log : run.log <+: after.log

namespace Continuation

variable {e : Engine} {now clock : Instant} {c : Continuation}

/-- A walk that was not cut has left the later points where they are, and a point for each wait that
it came to, if it suspends. -/
theorem walk_points (f : Flow) (hopen : (c.walk e (some f) now clock).truncated = false) :
    ∃ told new, (c.walk e (some f) now clock).log = c.run.log ++ told ∧
      (c.walk e (some f) now clock).pending = c.later ++ new ∧
      List.Forall₂ (Awaited (c.journey (some f)) now)
        (if e.hasScheduler then waitedSteps told else []) new := by
  let j := c.journey (some f)
  have hsuspends : (c.start e now clock).suspends j.mode = e.hasScheduler := by
    simp [j, journey, start, WalkState.suspends, WalkState.withNow, WalkState.ofLog,
      WalkState.start, Mode.isLive]
  cases hscheduler : e.hasScheduler with
  | true =>
    rw [hscheduler] at hsuspends
    have hwalk : c.walk e (some f) now clock =
        c.due.foldl (fun s p => s.walkDownstream j p.nodeId) (c.start e now clock) :=
      drain_of_deferred_nil j (deferred_foldl_of_suspends j c.due hsuspends rfl)
    have hsuspended : Suspended j (c.start e now clock) (c.walk e (some f) now clock) := by
      rw [hwalk]
      exact foldl_of_walk (fun agenda _ h => h.walk agenda) c.due (.self hsuspends)
    exact hsuspended.points hopen
  | false =>
    rw [hscheduler] at hsuspends
    have hstart : Passing j c.later (c.start e now clock) := ⟨hsuspends, fun _ => rfl⟩
    have hpassing : Passing j c.later (c.walk e (some f) now clock) :=
      (foldl_of_walk (P := Passing j c.later) (fun agenda _ h => h.walk agenda) c.due hstart).drain
    obtain ⟨-, told, -, htold, -⟩ := (steady_extends j c.run.id c.run.log []).continuation
      (Extends.self j (c.start e now clock))
    refine ⟨told, [], htold, ?_, .nil⟩
    rw [List.append_nil]
    exact hpassing.pending hopen

/-- A wait that a coherent run newly comes to is at a node that its log does not tell of. -/
theorem not_mem_nodeIds {limit : Nat} (coherent : c.run.Coherent limit)
    (waiting : c.run.status = .waiting) (f : Flow) {told : List Step} {id : String}
    (log : (c.walk e (some f) now clock).log = c.run.log ++ told)
    (new : 0 < entries .waited id told) : id ∉ c.run.log.map Step.nodeId := by
  intro hmem
  have hall : c.run.log.filter (fun step => step.nodeKind.isSome) = c.run.log :=
    List.filter_eq_self.2 (coherent.open_kinded waiting)
  have hvisited : id ∈ (c.start e now clock).visited := by
    show id ∈ enteredIds c.run.log
    rwa [enteredIds, hall]
  have hcarried := carried_visited (c.journey (some f)) id (entries .waited id c.run.log)
  have hentries : entries .waited id (c.walk e (some f) now clock).log ≤
      entries .waited id c.run.log :=
    (hcarried.drain (hcarried.foldl_walkDownstream c.due ⟨hvisited, Nat.le_refl _⟩)).2
  rw [log, entries, List.countP_append] at hentries
  unfold entries at hentries new
  omega

/-- The waits at which a well-formed run newly waits are neither among its points nor in its log. -/
theorem new_points {limit : Nat} (wellFormed : c.run.WellFormed limit)
    (waiting : c.run.status = .waiting) (f : Flow) {told : List Step} {new : List ResumePoint}
    (log : (c.walk e (some f) now clock).log = c.run.log ++ told)
    (awaited : List.Forall₂ (Awaited (c.journey (some f)) now)
      (if e.hasScheduler then waitedSteps told else []) new) :
    ∀ p ∈ new, p.nodeId ∉ c.run.pending.map ResumePoint.nodeId ∧
      p.nodeId ∉ c.run.log.map Step.nodeId := by
  intro p hp
  have hlogged : p.nodeId ∉ c.run.log.map Step.nodeId := by
    refine not_mem_nodeIds wellFormed.toCoherent waiting f log ?_
    have hid := List.mem_map_of_mem (f := ResumePoint.nodeId) hp
    rw [nodeIds_of_awaited awaited] at hid
    split at hid
    · exact entries_waited_pos hid
    · cases hid
  refine ⟨fun hpending => hlogged ?_, hlogged⟩
  obtain ⟨q, hq, hid⟩ := List.mem_map.1 hpending
  have hwaited := wellFormed.waited q hq
  obtain ⟨step, hstep, hof⟩ := List.countP_pos_iff.1 (hwaited ▸ Nat.one_pos : 0 < entries _ _ _)
  simp only [Step.isOf, Bool.and_eq_true, beq_iff_eq] at hof
  exact List.mem_map.2 ⟨step, hstep, hof.2.trans hid⟩

/-- A walk that was cut, or that had no flow to go on in, leaves nothing pending. -/
theorem pending_of_closed {flow : Option Flow}
    (closed : flow = none ∨ (c.walk e flow now clock).truncated = true) :
    (c.walk e flow now clock).pending = [] := by
  cases flow with
  | none => exact pending_record_of_nil rfl _
  | some f =>
    have hcleared := carried_cleared (c.journey (some f))
    refine hcleared.drain (hcleared.foldl_walkDownstream c.due fun hcut => ?_)
      (closed.resolve_left (by simp))
    cases hcut

/-- A continuation of a well-formed run accounts for all of its points. -/
theorem accounts {run : Run} {limit : Nat} (wellFormed : run.WellFormed limit)
    (continued : run.continuation now = .ok (some c)) (w : Surroundings) (flow : Option Flow) :
    e.Accounts w clock now run c flow (c.draft e flow now clock).run
      (e.handOff w (World.resumedNotice (c.draft e flow now clock)) (c.draft e flow now clock)) := by
  obtain ⟨hwaiting, -, hcontinuation⟩ := Run.continuation_eq_some_iff.1 continued
  obtain rfl : c.run = run := by rw [hcontinuation]
  have hdue : c.due = ResumePoint.inOrder (c.run.pending.filter fun p => p.resumeAt.le now) :=
    congrArg Continuation.due hcontinuation
  have hlater : c.later = c.run.pending.filter fun p => !p.resumeAt.le now :=
    congrArg Continuation.later hcontinuation
  have hstatus : (c.draft e flow now clock).run.status = .truncated ↔
      (c.walk e flow now clock).truncated = true := runStatus_eq_truncated_iff
  have horder := ResumePoint.dueInOrder now c.run.pending
  rw [← hdue] at horder
  constructor
  case read => exact ⟨rfl, hwaiting⟩
  case due =>
    refine ⟨horder, (horder.perm.map ResumePoint.nodeId).nodup_iff.2 ?_⟩
    exact wellFormed.distinct.sublist (List.filter_sublist.map _)
  case later => exact hlater
  case walked =>
    rintro f rfl
    obtain ⟨walked, left, hsplit, hwent, hcut⟩ :=
      exists_wentOn (c.journey (some f)) c.due (c.start e now clock)
    refine ⟨walked, left, _, hsplit, hwent, fun hleft => hstatus.2 ?_, rfl⟩
    exact (congrArg truncated (drain_of_truncated _ (hcut hleft))).trans (hcut hleft)
  case draft => exact ⟨rfl, rfl⟩
  case going =>
    intro hsome hopen
    obtain ⟨f, rfl⟩ := Option.isSome_iff_exists.1 hsome
    have hopen' := Bool.eq_false_iff.2 (mt hstatus.2 hopen)
    obtain ⟨told, new, htold, hnew, hawaited⟩ := c.walk_points f hopen'
    refine ⟨told, new, htold, hnew, ?_, hawaited, new_points wellFormed hwaiting f htold hawaited⟩
    show (c.walk e (some f) now clock).pending.drop c.later.length = new
    rw [hnew, List.drop_left]
  case closed =>
    intro hclosed
    have hnone := pending_of_closed (hclosed.imp_right hstatus.1)
    refine ⟨hnone, ?_, ?_⟩
    · show (c.walk e flow now clock).pending.drop c.later.length = []
      rw [hnone, List.drop_nil]
    · show ((c.walk e flow now clock).runStatus .live).isTerminal = true
      rw [runStatus, hnone]
      cases (c.walk e flow now clock).truncated <;> rfl
  case scheduled => exact e.wakeups_of_handOff w _ _
  case same => rfl
  case log => exact (c.requested_draft e flow now clock).1

end Continuation

namespace Engine

variable {σ : Type} [Store σ]

/-- A resumption that finds points due and succeeds has written the run that it tells. -/
theorem resumeDue_of_ok {e : Engine} {w : Surroundings} {clock now : Instant} {runId : String}
    {rival : Option Rival} {r : Records σ} {run after : Run}
    (read : w.findRun runId r.store = .ok run) (due : ∃ p ∈ run.pending, p.resumeAt.le now = true)
    (written : (e.resumeDue w clock runId now rival r).answer = .ok after) :
    ∃ c flow met, run.continuation now = .ok (some c) ∧
      w.findFlow run.orgId run.flowId r.store = .ok flow ∧
      afterRival rival r.store = .ok met ∧ after = (c.draft e flow now clock).run ∧
      w.update after run.log.length met = .ok (e.resumeDue w clock runId now rival r).records.store ∧
      (e.resumeDue w clock runId now rival r).deeds = e.handOff w
        (World.resumedNotice (c.draft e flow now clock)) (c.draft e flow now clock) := by
  cases hcontinued : run.continuation now with
  | error problem =>
    simp only [resumeDue, read, hcontinued] at written
    cases written
  | ok continued =>
    cases continued with
    | none =>
      obtain ⟨p, hp, hdue⟩ := due
      exact absurd hdue (Run.not_due_of_continuation hcontinued p hp)
    | some c =>
      cases hflow : w.findFlow run.orgId run.flowId r.store with
      | error problem =>
        simp only [resumeDue, read, hcontinued, hflow] at written
        cases written
      | ok flow =>
        cases hrival : afterRival rival r.store with
        | error problem =>
          simp only [resumeDue, read, hcontinued, hflow, hrival] at written
          cases written
        | ok met =>
          cases hwrite : w.update (c.draft e flow now clock).run run.log.length met with
          | error problem =>
            simp only [resumeDue, read, hcontinued, hflow, hrival, hwrite] at written
            cases written
          | ok store =>
            simp only [resumeDue, read, hcontinued, hflow, hrival, hwrite] at written ⊢
            obtain rfl := Except.ok.inj written
            exact ⟨c, flow, met, rfl, rfl, rfl, rfl, hwrite, rfl⟩

/-- A resumption of a well-formed run that succeeds accounts for every point that the run had and
for every point that it has now. -/
theorem resume_accounts {e : Engine} {w : Surroundings} {clock now : Instant} {runId : String}
    {rival : Option Rival} {r : Records σ} {run after : Run} {limit : Nat}
    (read : w.findRun runId r.store = .ok run) (wellFormed : run.WellFormed limit)
    (due : ∃ p ∈ run.pending, p.resumeAt.le now = true)
    (written : (e.resumeDue w clock runId now rival r).answer = .ok after) :
    ∃ c flow met, w.findFlow run.orgId run.flowId r.store = .ok flow ∧
      afterRival rival r.store = .ok met ∧
      w.update after run.log.length met = .ok (e.resumeDue w clock runId now rival r).records.store ∧
      e.Accounts w clock now run c flow after (e.resumeDue w clock runId now rival r).deeds := by
  obtain ⟨c, flow, met, hcontinued, hflow, hrival, rfl, hwrite, hdeeds⟩ :=
    resumeDue_of_ok read due written
  refine ⟨c, flow, met, hflow, hrival, hwrite, ?_⟩
  rw [hdeeds]
  exact c.accounts wellFormed hcontinued w flow

end Engine

namespace relay

theorem pending_live : live.pending = [⟨"w1", .hour 1⟩, ⟨"w2", .hour 3⟩] := by cbv

theorem waited_live : live.pending.map (fun p => entries .waited p.nodeId live.log) = [1, 1] := by
  cbv

theorem wellFormed_live : live.WellFormed Engine.numbered.settings.maxSteps where
  toCoherent := Engine.coherent_draft rfl relay event .live .manual "run1" .epoch
  distinct := by
    rw [pending_live]
    decide
  waited p hp := by
    have hone := List.mem_map_of_mem (f := fun p => entries .waited p.nodeId live.log) hp
    rw [waited_live] at hone
    simpa using hone

/-- The run when it is resumed after two hours. -/
def afterTwo : Run := (first.draft .numbered (some relay) (.hour 2) (.hour 2)).run

end relay

open relay in
/-- After two hours the first wait is over. The second one is kept, and the one that the run comes to
then is put behind it and handed over. -/
theorem resume_accounts_relay : ∃ c,
    Engine.numbered.Accounts .calm (.hour 2) (.hour 2) live c (some relay) afterTwo
      (Engine.numbered.resumeDue .calm (.hour 2) "run1" (.hour 2) none executed).deeds ∧
    afterTwo.pending = [⟨"w2", .hour 3⟩, ⟨"w3", .hour 3⟩] := by
  have hread : Surroundings.calm.findRun "run1" executed.store = .ok live := by rfl
  have hflow : Surroundings.calm.findFlow "acme" "relay" executed.store = .ok (some relay) := by rfl
  have hdue : ∃ p ∈ live.pending, p.resumeAt.le (.hour 2) = true := by
    rw [pending_live]
    exact ⟨_, List.mem_cons_self, rfl⟩
  have hwritten : (Engine.numbered.resumeDue .calm (.hour 2) "run1" (.hour 2) none
      executed).answer = .ok afterTwo := by cbv
  obtain ⟨c, flow, met, hfound, -, -, haccounts⟩ :=
    Engine.resume_accounts hread wellFormed_live hdue hwritten
  obtain rfl := Except.ok.inj (hflow.symm.trans hfound)
  exact ⟨c, haccounts, by cbv⟩

end Dunning
