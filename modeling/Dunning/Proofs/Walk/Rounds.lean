import Dunning.Proofs.Walk.Census
import Dunning.Proofs.Walk.Queue
import Dunning.Proofs.Walk.Told

/-!
# The rounds of a drain

A drain goes round after round: it takes the earliest of the deferred points, the first one of
equals, and goes on behind it from its time. The waits that are met in a round begin at this
time, and their points are put behind those that are left. So the deferred points are a stable
queue, because no wait ends before it begins.
-/
namespace Dunning

/-- What a drain does with one point: the steps that are logged behind it, and the points of the
waits among them. -/
structure Leg where
  point : ResumePoint
  steps : List Step
  points : List ResumePoint

namespace WalkState

open ResumePoint

/-- What a drain goes on from when it has taken a point: the others are left, and the time is that
of the point. -/
def turnTo (s : WalkState) (p : ResumePoint) (others : List ResumePoint) : WalkState :=
  { s with deferred := others, now := p.resumeAt }

/-- A state and one to which a drain comes from it in a number of rounds. -/
inductive Rounds (j : Journey) : WalkState → List Leg → WalkState → Prop
  | done (s : WalkState) : Rounds j s [] s
  | next {s t : WalkState} {leg : Leg} {others : List ResumePoint} {legs : List Leg}
      (going : s.truncated = false) (taken : takeEarliest s.deferred = some (leg.point, others))
      (made : Adds j (s.turnTo leg.point others) leg.steps leg.points
        ((s.turnTo leg.point others).walkDownstream j leg.point.nodeId))
      (rest : Rounds j ((s.turnTo leg.point others).walkDownstream j leg.point.nodeId) legs t) :
      Rounds j s (leg :: legs) t

/-- A drain is a number of rounds, after which it is cut or nothing is left. -/
theorem exists_rounds (j : Journey) (s : WalkState) : ∃ legs, Rounds j s legs (s.drain j) ∧
    ((s.drain j).truncated = true ∨ (s.drain j).deferred = []) := by
  fun_induction drain j s with
  | case1 s cut => exact ⟨[], .done s, .inl cut⟩
  | case2 s going found => exact ⟨[], .done s, .inr (takeEarliest_eq_none found)⟩
  | case3 s going point others found ih =>
    obtain ⟨legs, hrounds, hover⟩ := ih
    obtain ⟨steps, points, hadds⟩ :=
      exists_adds_walk j (j.targets point.nodeId) (s.turnTo point others)
    have hgoing : s.truncated = false := by simpa using going
    exact ⟨⟨point, steps, points⟩ :: legs, .next hgoing found hadds hrounds, hover⟩

/-- Points are left at the nodes of the waits that legs tell of. -/
theorem nodeIds_legs {j : Journey} {legs : List Leg}
    (told : ∀ leg ∈ legs, Told j leg.point.resumeAt leg.steps leg.points) :
    (legs.flatMap Leg.points).map ResumePoint.nodeId =
      (waitedSteps (legs.flatMap Leg.steps)).map Step.nodeId := by
  induction legs with
  | nil => rfl
  | cons leg legs ih =>
    have hleg := nodeIds_of_awaited (told leg List.mem_cons_self).awaited
    have hlegs := ih fun other hother => told other (List.mem_cons_of_mem leg hother)
    rw [List.flatMap_cons, List.flatMap_cons, waitedSteps_append, List.map_append, List.map_append,
      hleg, hlegs]

namespace Rounds

variable {j : Journey} {s t : WalkState} {legs : List Leg}

/-- There are no more rounds than deferred points and nodes that have not been visited. -/
theorem length_le (h : Rounds j s legs t) : legs.length ≤ s.load j.graph := by
  induction h with
  | done s => exact Nat.zero_le _
  | @next s t leg others legs going taken made rest ih =>
    have hround : ((s.turnTo leg.point others).walkDownstream j leg.point.nodeId).load j.graph ≤
        (s.turnTo leg.point others).load j.graph := load_walk_le j _ _
    have hturned : (s.turnTo leg.point others).load j.graph + 1 = s.load j.graph := by
      rw [load, load, takeEarliest_length taken]
      rfl
    rw [List.length_cons]
    omega

theorem log (h : Rounds j s legs t) : t.log = s.log ++ legs.flatMap Leg.steps := by
  induction h with
  | done s => simp
  | next going taken made rest ih =>
    rw [ih, made.log, List.flatMap_cons, List.append_assoc]
    rfl

theorem told (h : Rounds j s legs t) :
    ∀ leg ∈ legs, Told j leg.point.resumeAt leg.steps leg.points := by
  induction h with
  | done s => simp
  | next going taken made rest ih =>
    intro leg hleg
    obtain rfl | hleg := List.mem_cons.1 hleg
    · exact made.told
    · exact ih leg hleg

/-- The points of a drain that does not suspend are taken as from a stable queue. -/
theorem queued (h : Rounds j s legs t) (passes : s.suspends j.mode = false)
    {taken pending put : List ResumePoint} (before : Queued taken pending put)
    (kept : s.truncated = false → s.deferred = pending) : ∃ queue,
      Queued (taken ++ legs.map Leg.point) queue (put ++ legs.flatMap Leg.points) ∧
        (t.truncated = false → t.deferred = queue) := by
  induction h generalizing taken pending put with
  | done s => exact ⟨pending, by simpa using before, kept⟩
  | @next s t leg others legs going htaken made rest ih =>
    rw [kept going] at htaken
    have hafter := before.take htaken made.told.le_of_mem
    have hturned : (s.turnTo leg.point others).suspends j.mode = false := passes
    have hround := ih (made.suspends.trans passes) hafter fun hopen => by
      rw [made.deferred hopen, hturned]
      rfl
    simpa using hround

end Rounds

/-- The waits that a log tells of are at different nodes. -/
theorem nodup_waitedSteps {log : List Step} (once : EnteredOnce log) :
    ((waitedSteps log).map Step.nodeId).Nodup := by
  refine List.nodup_iff_count_le_one.2 fun id => ?_
  have hentries := once.once .waited id (by decide)
  rw [entries] at hentries
  rw [waitedSteps, List.count_eq_countP, List.countP_map, List.countP_filter]
  refine (List.countP_congr fun step _ => ?_).trans_le hentries
  simp [Step.isOf, and_comm]

/-- A drain with what came before it: walks at one time that logged some steps and left points at
the waits among them. All points are listed in the order in which their waits were logged. -/
structure StablyDrained (j : Journey) (now : Instant) (s : WalkState) (steps : List Step)
    (points : List ResumePoint) (legs : List Leg) : Prop where
  begun : s.log = steps
  told : Told j now steps points
  rounds : Rounds j s legs (s.drain j)
  ended : (s.drain j).truncated = true ∨ (s.drain j).deferred = []
  log : (s.drain j).log = steps ++ legs.flatMap Leg.steps
  inOrder : (legs.map Leg.point).Pairwise Before
  stable : ∀ time, pointsAt time (legs.map Leg.point) <+:
    pointsAt time (points ++ legs.flatMap Leg.points)
  once : (s.drain j).truncated = false →
    (legs.map Leg.point).Perm (points ++ legs.flatMap Leg.points) ∧
      ((legs.map Leg.point).map ResumePoint.nodeId).Nodup

/-- A drain that follows walks at one time continues their waits and its own as from a stable
queue. -/
theorem Adds.exists_stablyDrained {j : Journey} {fresh s : WalkState} {steps : List Step}
    {points : List ResumePoint} (h : Adds j fresh steps points s) (unwritten : fresh.log = [])
    (undeferred : fresh.deferred = []) (passes : fresh.suspends j.mode = false)
    (once : EnteredOnce (s.drain j).log) :
    ∃ legs, StablyDrained j fresh.now s steps points legs := by
  obtain ⟨legs, hrounds, hended⟩ := exists_rounds j s
  have hbegun : s.log = steps := by rw [h.log, unwritten, List.nil_append]
  have hlog : (s.drain j).log = steps ++ legs.flatMap Leg.steps := hbegun ▸ hrounds.log
  obtain ⟨queue, hqueued, hqueue⟩ := hrounds.queued (h.suspends.trans passes) (Queued.start points)
    fun hopen => by simp [h.deferred hopen, undeferred, passes]
  rw [List.nil_append] at hqueued
  refine ⟨legs, hbegun, h.told, hrounds, hended, hlog, hqueued.inOrder, hqueued.prefix_pointsAt,
    fun hopen => ?_⟩
  -- Nothing is left, so that all points have been taken; their waits are at different nodes.
  have hnone : queue = [] := by
    rw [← hqueue hopen]
    exact hended.resolve_left (by simp [hopen])
  rw [hnone] at hqueued
  have hnodup := nodup_waitedSteps once
  rw [hlog, waitedSteps_append, List.map_append, ← nodeIds_of_awaited h.told.awaited,
    ← nodeIds_legs hrounds.told, ← List.map_append] at hnodup
  exact ⟨hqueued.perm, (hqueued.perm.map ResumePoint.nodeId).nodup_iff.2 hnodup⟩

/-- A run that does not suspend continues its waits as from a stable queue: the earliest first,
those that are due at the same time as they were logged, and each one once unless the run is cut.
A wait begins at the time of the point behind which it is met, its point is due by its length later
to the nanosecond (a leap second that is left counts as the second before it), and it has none if that
is past the last instant. -/
theorem drain_is_stable_queue (j : Journey) (starts : List String) (runId : String) (maxSteps : Nat)
    (suspendWaits : Bool) (clock now : Instant) (passes : j.mode = .dryRun ∨ suspendWaits = false) :
    let s := starts.foldl (fun s id => s.walk j [id])
      ((start runId maxSteps suspendWaits clock).withNow now)
    (∃ steps points legs, StablyDrained j now s steps points legs) ∧
    (∀ legs t, Rounds j s legs t → legs.length ≤ s.load j.graph) ∧
    ∀ (w : Wait) (begun : Instant),
      (w.until? begun = none ↔ Instant.lastSecond < begun.seconds + 3600 * w.totalHours) ∧
      ∀ due, w.until? begun = some due → due.seconds = begun.seconds + 3600 * w.totalHours ∧
        due.nanos = if w.totalHours = 0 then begun.nanos else begun.nanos % Instant.second := by
  intro s
  have hs : s = ((start runId maxSteps suspendWaits clock).withNow now).walk j starts :=
    foldl_walk j starts _
  have hpasses :
      ((start runId maxSteps suspendWaits clock).withNow now).suspends j.mode = false := by
    obtain hmode | hsetting := passes
    · rw [suspends, hmode]
      rfl
    · rw [hsetting]
      exact Bool.and_false _
  refine ⟨?_, fun legs t h => h.length_le, fun w begun => begun.addHours_spec w.totalHours⟩
  obtain ⟨steps, points, hadds⟩ :=
    exists_adds_walk j starts ((start runId maxSteps suspendWaits clock).withNow now)
  have hsteady := steady_enteredOnce j
  have hfresh : Accounted ((start runId maxSteps suspendWaits clock).withNow now) :=
    fun _ _ => Iff.rfl
  have hwalked := hsteady.walk starts _ ⟨hfresh, .nil⟩
  rw [← hs] at hadds hwalked
  obtain ⟨legs, hdrained⟩ := hadds.exists_stablyDrained rfl rfl hpasses (hsteady.drain hwalked).2
  exact ⟨steps, points, legs, hdrained⟩

/-- Two waits, of which the second one ends first and leads to a third that ends together with the
first. An enrollment follows each of them. -/
def cascade : Flow where
  id := "cascade"
  orgId := "acme"
  name := "Cascade"
  status := .active
  nodes := [.atOrigin "t" (.trigger ⟨.invoiceOverdue, .none⟩), .atOrigin "w1" (.wait ⟨2, .hours⟩),
    .atOrigin "w2" (.wait ⟨1, .hours⟩), .atOrigin "w3" (.wait ⟨1, .hours⟩),
    .atOrigin "e1" (.enroll ⟨"first", ""⟩), .atOrigin "e2" (.enroll ⟨"second", ""⟩),
    .atOrigin "e3" (.enroll ⟨"third", ""⟩)]
  edges := [.plain "tw1" "t" "w1", .plain "tw2" "t" "w2", .plain "we1" "w1" "e1",
    .plain "we2" "w2" "e2", .plain "ww" "w2" "w3", .plain "we3" "w3" "e3"]
  deletedAt := none

namespace cascade

def journey : Journey := ⟨.ofFlow cascade, Event.ofTrigger "acme" .invoiceOverdue, .dryRun⟩

/-- The state before the drain. -/
def begun : WalkState :=
  ["t"].foldl (fun s id => s.walk journey [id])
    ((start "run1" 10 true .epoch).withNow .epoch)

theorem nodeIds_drained : (begun.drain journey).log.map Step.nodeId =
    ["t", "w1", "w2", "e2", "w3", "e1", "e3"] := by
  cbv

theorem waits_drained : (waitedSteps (begun.drain journey).log).map Step.nodeId =
    ["w1", "w2", "w3"] := by
  cbv

theorem open_drained : (begun.drain journey).truncated = false := by cbv

end cascade

open cascade in
/-- The second wait is continued first, and then the other two in the order of the log, as the
enrollments show. -/
theorem drain_is_stable_queue_cascade :
    (∃ steps points legs, StablyDrained journey .epoch begun steps points legs ∧
      ((legs.map Leg.point).map ResumePoint.nodeId).Perm ["w1", "w2", "w3"]) ∧
    (begun.drain journey).log.map Step.nodeId = ["t", "w1", "w2", "e2", "w3", "e1", "e3"] := by
  obtain ⟨⟨steps, points, legs, hdrained⟩, -, -⟩ :=
    drain_is_stable_queue journey ["t"] "run1" 10 true .epoch .epoch (.inl rfl)
  refine ⟨⟨steps, points, legs, hdrained, ?_⟩, nodeIds_drained⟩
  have hperm := (hdrained.once open_drained).1.map ResumePoint.nodeId
  rw [List.map_append, nodeIds_of_awaited hdrained.told.awaited,
    nodeIds_legs hdrained.rounds.told, ← List.map_append, ← waitedSteps_append, ← hdrained.log]
    at hperm
  exact waits_drained ▸ hperm

end WalkState

end Dunning
