import Dunning.Proofs.Walk.Chart
import Dunning.Proofs.Walk.Forks
import Dunning.Proofs.Walk.Trail

/-!
# What a walk tells of its waits

All waits to which a walk comes begin at its base time. It logs each of them as waited if it ends
at an instant and as out of range if that would be past the last one, unless the wait has been
entered before. Behind each waited step it leaves a point, in the order of the log.
-/
namespace Dunning

/-- An instant that is put off by hours is that many hours later to the nanosecond, those of a leap
second that is left apart. Or there is no such instant because it would be past the last one. -/
theorem Instant.addHours_spec (t : Instant) (hours : Nat) :
    (t.addHours hours = none ↔ lastSecond < t.seconds + 3600 * hours) ∧
      ∀ later, t.addHours hours = some later → later.seconds = t.seconds + 3600 * hours ∧
        later.nanos = if hours = 0 then t.nanos else t.nanos % second := by
  obtain ⟨hfirst, hlast, -, -⟩ := t.valid
  unfold addHours
  split
  · rename_i hzero
    subst hzero
    constructor
    · simp only [reduceCtorEq, false_iff]
      omega
    · rintro later ⟨⟩
      exact ⟨by omega, rfl⟩
  · have hnanos : t.nanos % second < second := Nat.mod_lt _ (by decide)
    unfold ofSeconds?
    split
    · rename_i hvalid
      obtain ⟨-, hlast, -, -⟩ := hvalid
      constructor
      · simp only [reduceCtorEq, false_iff]
        omega
      · rintro later ⟨⟩
        exact ⟨rfl, rfl⟩
    · rename_i hinvalid
      constructor
      · simp only [true_iff]
        by_contra hin
        exact hinvalid ⟨by omega, by omega, by omega, fun hleap => by omega⟩
      · simp

/-- The waits that a log tells of. -/
def waitedSteps (log : List Step) : List Step := log.filter fun step => step.action == .waited

theorem waitedSteps_append (log more : List Step) :
    waitedSteps (log ++ more) = waitedSteps log ++ waitedSteps more := List.filter_append ..

/-- A point that is left at a wait which begins at a time, with the step that was logged of it. -/
structure Awaited (j : Journey) (begun : Instant) (step : Step) (point : ResumePoint) : Prop where
  nodeId : point.nodeId = step.nodeId
  resumeAt : ∃ node w, j.graph.node? step.nodeId = some node ∧ node.body = .wait w ∧
    w.until? begun = some point.resumeAt

/-- Points are left at the nodes of their steps. -/
theorem nodeIds_of_awaited {j : Journey} {begun : Instant} {steps : List Step}
    {points : List ResumePoint} (h : List.Forall₂ (Awaited j begun) steps points) :
    points.map ResumePoint.nodeId = steps.map Step.nodeId := by
  induction h with
  | nil => rfl
  | cons hawaited _ ih => rw [List.map_cons, List.map_cons, hawaited.nodeId, ih]

/-- Where the log tells of a wait there is an entry. -/
theorem entries_waited_pos {id : String} {log : List Step}
    (h : id ∈ (waitedSteps log).map Step.nodeId) : 0 < entries .waited id log := by
  obtain ⟨step, hstep, rfl⟩ := List.mem_map.1 h
  obtain ⟨hlogged, hwaited⟩ := List.mem_filter.1 hstep
  exact List.countP_pos_iff.2 ⟨step, hlogged, by simpa [Step.isOf] using hwaited⟩

namespace Move

/-- A move that fits the graph leaves a point exactly when it logs a wait. -/
theorem awaited_of_fits {j : Journey} (s : WalkState) {m : Move} (fits : m.Fits j.graph) :
    List.Forall₂ (Awaited j s.now) (waitedSteps (m.step? j s).toList) (m.points s.now) := by
  cases m with
  | visit id => exact .nil
  | note id node action detail =>
    have hother : action ≠ .waited := by
      rcases fits.2 with rfl | rfl | rfl <;> simp
    simp [step?, points, waitedSteps, WalkState.nodeStep, WalkState.step, hother]
  | enroll id node e =>
    simp only [step?, points]
    cases j.mode <;> exact .nil
  | wait id node w =>
    obtain ⟨found, hbody⟩ := fits
    cases hw : w.until? s.now with
    | none =>
      simp only [step?, points, hw]
      exact .nil
    | some resumeAt =>
      simp only [step?, points, hw]
      exact .cons ⟨rfl, node, w, found, hbody, hw⟩ .nil

theorem awaited_of_forall_fits {j : Journey} (s : WalkState) {moves : List Move}
    (fits : ∀ m ∈ moves, m.Fits j.graph) : List.Forall₂ (Awaited j s.now)
      (waitedSteps (moves.filterMap (step? j s))) (moves.flatMap (points s.now)) := by
  induction moves with
  | nil => exact .nil
  | cons m rest ih =>
    rw [filterMap_step?_cons, waitedSteps_append, List.flatMap_cons]
    exact List.rel_append (awaited_of_fits s (fits m List.mem_cons_self))
      (ih fun other hother => fits other (List.mem_cons_of_mem m hother))

end Move

/-- A step that tells rightly of a wait that begins at a time. The wait is logged as waited if its
end is an instant and as out of range if it is not; a wait that was entered before turns back. -/
def Step.Timed (j : Journey) (begun : Instant) (step : Step) : Prop :=
  step.nodeKind = some .wait → step.TurnsBack ∨
    ∃ node w, j.graph.node? step.nodeId = some node ∧ node.body = .wait w ∧
      if (w.until? begun).isSome then step.action = .waited else step.OutOfRange

/-- Steps of a walk whose waits begin at a time, and the points of the waits that were logged. -/
structure Told (j : Journey) (begun : Instant) (steps : List Step) (points : List ResumePoint) :
    Prop where
  timed : ∀ step ∈ steps, step.Timed j begun
  awaited : List.Forall₂ (Awaited j begun) (waitedSteps steps) points

namespace Told

open WalkState (IsRemark)

variable {j : Journey} {begun : Instant} {steps more : List Step} {points others : List ResumePoint}

theorem nil (j : Journey) (begun : Instant) : Told j begun [] [] := ⟨by simp, .nil⟩

theorem append (h : Told j begun steps points) (h' : Told j begun more others) :
    Told j begun (steps ++ more) (points ++ others) := by
  constructor
  · intro step hstep
    exact (List.mem_append.1 hstep).elim (h.timed step) (h'.timed step)
  · rw [waitedSteps_append]
    exact List.rel_append h.awaited h'.awaited

/-- Each point is at a wait and due when this wait is over. -/
theorem exists_wait_of_mem (h : Told j begun steps points) : ∀ p ∈ points, ∃ node w,
    j.graph.node? p.nodeId = some node ∧ node.body = .wait w ∧
      w.until? begun = some p.resumeAt := by
  obtain ⟨-, hawaited⟩ := h
  generalize waitedSteps steps = waits at hawaited
  induction hawaited with
  | nil => simp
  | cons hawaited hrest ih =>
    intro p hp
    obtain rfl | hp := List.mem_cons.1 hp
    · exact hawaited.nodeId ▸ hawaited.resumeAt
    · exact ih p hp

/-- No wait ends before it begins. -/
theorem le_of_mem (h : Told j begun steps points) : ∀ p ∈ points, begun.le p.resumeAt = true := by
  intro p hp
  obtain ⟨node, w, -, -, hend⟩ := h.exists_wait_of_mem p hp
  exact Instant.le_addHours hend

/-- A step of the engine tells of no wait. -/
theorem remark {step : Step} (remark : IsRemark step) : Told j begun [step] [] := by
  obtain ⟨hkindless, hskipped⟩ := remark
  constructor
  · intro other hother hkind
    rw [List.mem_singleton.1 hother, hkindless] at hkind
    cases hkind
  · simp [waitedSteps, hskipped]

end Told

namespace Journey

/-- A walk tells rightly of the waits that it comes to. -/
theorem timed_of_mem_course {j : Journey} {agenda visited : List String} {s : WalkState} {m : Move}
    (hm : m ∈ j.course agenda visited) {step : Step} (logged : m.step? j s = some step) :
    step.Timed j s.now := by
  intro hkind
  fun_induction course j agenda visited with
  | case1 visited => cases hm
  | case2 visited id rest missing ih => exact ih hm
  | case3 visited id rest node found old ih =>
    obtain rfl | hm := List.mem_cons.1 hm
    · obtain rfl := Option.some.inj logged
      exact .inl (.inr ⟨rfl, rfl⟩)
    · exact ih hm
  | case4 visited id rest node found new ih =>
    obtain rfl | hm := List.mem_cons.1 hm
    · cases logged
    obtain hm | hm := List.mem_append.1 hm
    · have hnode : node.body.kind = .wait :=
        Option.some.inj ((nodeKind_of_mem_entryMoves hm logged).symm.trans hkind)
      cases hbody : node.body with
      | wait w =>
        simp only [entryMoves, hbody, List.mem_singleton] at hm
        subst hm
        obtain rfl := Option.some.inj logged
        refine .inr ⟨node, w, ?_, hbody, ?_⟩
        · cases w.until? s.now <;> exact found
        · cases w.until? s.now with
          | none => exact ⟨congrArg some hnode, rfl, w, rfl⟩
          | some due => rfl
      | _ => rw [hbody] at hnode; cases hnode
    · exact ih hm

/-- A first part of the moves of a course tells rightly of its waits. -/
theorem told_course (j : Journey) {agenda visited : List String} {made : List Move}
    (part : made ⊆ j.course agenda visited) (s : WalkState) :
    Told j s.now (made.filterMap (Move.step? j s)) (made.flatMap (Move.points s.now)) := by
  constructor
  · intro step hstep
    obtain ⟨m, hm, hlogged⟩ := List.mem_filterMap.1 hstep
    exact timed_of_mem_course (part hm) hlogged
  · exact Move.awaited_of_forall_fits s fun m hm => j.fits_of_mem_course agenda visited m (part hm)

end Journey

namespace WalkState

/-- What a walk adds to a state: steps that tell rightly of waits, and their points. -/
structure Adds (j : Journey) (s : WalkState) (steps : List Step) (points : List ResumePoint)
    (t : WalkState) : Prop where
  log : t.log = s.log ++ steps
  told : Told j s.now steps points
  now : t.now = s.now
  suspends : t.suspends j.mode = s.suspends j.mode
  going : t.truncated = false → s.truncated = false
  /-- Unless the walk was cut, its points are put behind those that were there. -/
  pending : t.truncated = false →
    t.pending = s.pending ++ if s.suspends j.mode then points else []
  deferred : t.truncated = false →
    t.deferred = s.deferred ++ if s.suspends j.mode then [] else points

theorem Adds.refl (j : Journey) (s : WalkState) : Adds j s [] [] s := by
  refine ⟨(List.append_nil _).symm, .nil j s.now, rfl, rfl, id, fun _ => ?_, fun _ => ?_⟩
  · rw [ite_self, List.append_nil]
  · rw [ite_self, List.append_nil]

/-- Of a walk that was cut, nothing is said of the points that are left. -/
theorem Adds.of_cut {j : Journey} {s t : WalkState} {steps : List Step}
    {points : List ResumePoint} (cut : t.truncated = true) (log : t.log = s.log ++ steps)
    (told : Told j s.now steps points) (now : t.now = s.now)
    (suspends : t.suspends j.mode = s.suspends j.mode) : Adds j s steps points t := by
  have hclosed : t.truncated ≠ false := by rw [cut]; decide
  exact ⟨log, told, now, suspends, fun hopen => absurd hopen hclosed,
    fun hopen => absurd hopen hclosed, fun hopen => absurd hopen hclosed⟩

theorem Adds.trans {j : Journey} {s t u : WalkState} {steps more : List Step}
    {points others : List ResumePoint} (h : Adds j s steps points t) (h' : Adds j t more others u) :
    Adds j s (steps ++ more) (points ++ others) u := by
  refine ⟨?_, h.told.append (h.now ▸ h'.told), h'.now.trans h.now, h'.suspends.trans h.suspends,
    fun hopen => h.going (h'.going hopen), fun hopen => ?_, fun hopen => ?_⟩
  · rw [h'.log, h.log, List.append_assoc]
  · rw [h'.pending hopen, h.pending (h'.going hopen), h.suspends, List.append_assoc]
    split <;> rfl
  · rw [h'.deferred hopen, h.deferred (h'.going hopen), h.suspends, List.append_assoc]
    split <;> rfl

theorem exists_adds_walk (j : Journey) (agenda : List String) (s : WalkState) :
    ∃ steps points, Adds j s steps points (s.walk j agenda) := by
  obtain ⟨-, hsame⟩ | ⟨hopen, hall⟩ | ⟨-, made, m, rest, hsplit, hcut, -⟩ := walk_cases j agenda s
  · rw [hsame]
    exact ⟨[], [], .refl j s⟩
  · have htold := j.told_course (List.Subset.refl (j.course agenda s.visited)) s
    rw [hall]
    exact ⟨_, _, rfl, htold, rfl, rfl, fun _ => hopen, fun _ => rfl, fun _ => rfl⟩
  · have hpart : made ⊆ j.course agenda s.visited := hsplit ▸ List.subset_append_left ..
    have hlimit : Told j s.now [(s.grown j made).limitStep m.nodeId] [] := .remark ⟨rfl, rfl⟩
    rw [hcut]
    exact ⟨_, _, .of_cut rfl (List.append_assoc ..) ((j.told_course hpart s).append hlimit) rfl rfl⟩

/-- A step of the engine is added, or the step of the limit. -/
theorem exists_adds_record (j : Journey) (s : WalkState) {step : Step} (remark : IsRemark step) :
    ∃ steps points, Adds j s steps points (s.record step) := by
  cases hopen : s.truncated with
  | true =>
    rw [record_of_truncated hopen]
    exact ⟨[], [], .refl j s⟩
  | false =>
    obtain hsame | hcut | hmore := record_cases s step
    · rw [hsame]
      exact ⟨[], [], .refl j s⟩
    · have hlimit : Told j s.now [s.limitStep step.nodeId] [] := .remark ⟨rfl, rfl⟩
      rw [hcut]
      exact ⟨_, [], .of_cut rfl rfl hlimit rfl rfl⟩
    · rw [hmore]
      refine ⟨[step], [], rfl, Told.remark remark, rfl, rfl, fun _ => hopen, fun _ => ?_,
        fun _ => ?_⟩
      · rw [ite_self, List.append_nil]
      · rw [ite_self, List.append_nil]

theorem exists_adds_foldl (j : Journey) (points : List ResumePoint) (s : WalkState) :
    ∃ steps left, Adds j s steps left
      (points.foldl (fun s p => s.walkDownstream j p.nodeId) s) := by
  induction points generalizing s with
  | nil => exact ⟨[], [], .refl j s⟩
  | cons p rest ih =>
    obtain ⟨steps, left, hfirst⟩ := exists_adds_walk j (j.targets p.nodeId) s
    obtain ⟨more, others, hrest⟩ := ih (s.walkDownstream j p.nodeId)
    exact ⟨steps ++ more, left ++ others, hfirst.trans hrest⟩

end WalkState

end Dunning
