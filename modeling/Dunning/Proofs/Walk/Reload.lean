import Dunning.Proofs.Walk.Arrival
import Dunning.Proofs.Walk.Census

/-!
# Reloading a walk from its log

A state can be built anew from its log alone. A node is visited right before the first step that
tells of it is logged, so that the log tells of all that was visited, but for the node at which the
limit has ended it. From there the new state goes on like the old one: calls add the same to both.
-/
namespace Dunning

namespace WalkState

/-- A state whose log tells of what was visited. If the limit has ended the log, its last step may
be all that is told of the last node. -/
structure Recounts (s : WalkState) : Prop where
  going : Accounted s
  cut : s.truncated = true → ∃ before last, s.log = before ++ [last] ∧ last.IsLimit s.maxSteps ∧
    enteredIds s.log ⊆ s.visited ∧ s.visited ⊆ last.nodeId :: enteredIds s.log

namespace Recounts

variable {s : WalkState}

/-- A step that belongs to no node may be recorded. -/
theorem record (h : Recounts s) {step : Step} (kindless : step.nodeKind = none) :
    Recounts (s.record step) := by
  cases hopen : s.truncated with
  | true => rwa [record_of_truncated hopen]
  | false =>
    have haccounted := h.going hopen
    have hsilent : ∀ other : Step, other.nodeKind = none →
        enteredIds (s.log ++ [other]) = enteredIds s.log := by
      intro other hother
      simp [enteredIds, hother]
    obtain hsame | hcut | hmore := record_cases s step
    · rwa [hsame]
    · have hlog : enteredIds (s.cut step.nodeId).log = enteredIds s.log := hsilent _ rfl
      rw [hcut]
      constructor
      · intro hgoing
        cases hgoing
      · intro _
        refine ⟨s.log, s.limitStep step.nodeId, rfl, ⟨rfl, rfl, rfl⟩, fun id hid => ?_,
          fun id hid => ?_⟩
        · exact (haccounted id).2 (hlog ▸ hid)
        · exact List.mem_cons_of_mem _ (hlog ▸ (haccounted id).1 hid)
    · rw [hmore]
      refine ⟨fun _ id => ?_, fun hcut => by cases hopen.symm.trans hcut⟩
      rw [hsilent step kindless]
      exact haccounted id

/-- At the node to which a walk comes it is told of the node, or the limit ends the log. -/
theorem comesTo (h : Recounts s) (hopen : s.truncated = false) {id : String} {t : WalkState}
    (comes : ∃ steps, ComesTo id s t steps) : Recounts t := by
  obtain ⟨steps, hcomes⟩ := comes
  have haccounted := h.going hopen
  have hids : enteredIds t.log = enteredIds s.log ++ enteredIds steps := by
    rw [hcomes.log, enteredIds_append]
  have htold : enteredIds t.log ⊆ t.visited := by
    intro other hother
    rw [hids, List.mem_append] at hother
    rw [hcomes.visited]
    obtain hother | hother := hother
    · exact .inr ((haccounted other).2 hother)
    · obtain ⟨step, hstep, rfl⟩ := List.mem_map.1 hother
      exact .inl (hcomes.nodeIds step (List.mem_filter.1 hstep).1)
  have hnearly : t.visited ⊆ id :: enteredIds t.log := by
    intro other hother
    rw [hids, List.mem_cons, List.mem_append]
    obtain rfl | hother := (hcomes.visited other).1 hother
    · exact .inl rfl
    · exact .inr (.inl ((haccounted other).1 hother))
  constructor
  · intro hgoing other
    refine ⟨fun hother => ?_, fun hother => htold hother⟩
    obtain rfl | hother := List.mem_cons.1 (hnearly hother)
    · rw [hids]
      exact List.mem_append_right _ (hcomes.entered hgoing)
    · exact hother
  · intro hcut
    obtain ⟨told, hsteps⟩ := hcomes.cut hcut
    refine ⟨s.log ++ told, s.limitStep id, ?_, ⟨rfl, rfl, ?_⟩, htold, hnearly⟩
    · rw [hcomes.log, hsteps, List.append_assoc]
    · rw [hcomes.maxSteps]
      rfl

/-- Walks keep this up, since wherever they come to they log a step at once. -/
theorem walk (h : Recounts s) (j : Journey) (agenda : List String) :
    Recounts (s.walk j agenda) := by
  fun_induction WalkState.walk j agenda s with
  | case1 s => exact h
  | case2 s id rest cut => exact h
  | case3 s id rest going found ih => exact ih h
  | case4 s id rest going node found old ih =>
    have hopen := Bool.eq_false_iff.2 going
    exact ih (h.comesTo hopen (exists_comesTo_revisit node hopen old _))
  | case5 s id rest going node found new ih =>
    have hopen := Bool.eq_false_iff.2 going
    exact ih (h.comesTo hopen (exists_comesTo_enter j node hopen))

end Recounts

theorem carried_recounts (j : Journey) : Carried j Recounts where
  walk agenda _ hs := hs.walk j agenda
  retime _ _ _ _ _ hs := ⟨hs.going, hs.cut⟩

/-- The states that come from a fresh one by calls on any graphs and by steps that belong to no
node. In between, time may pass. -/
inductive Walked : WalkState → Prop
  | start (runId : String) (maxSteps : Nat) (suspendWaits : Bool) (clock : Instant) :
      Walked (start runId maxSteps suspendWaits clock)
  | later {s : WalkState} (before : Walked s) (clock now : Instant) :
      Walked { s with clock := clock, now := now }
  | called {s : WalkState} (before : Walked s) (j : Journey) (c : WalkCall) : Walked (s.call j c)
  | recorded {s : WalkState} (before : Walked s) (step : Step) (kindless : step.nodeKind = none) :
      Walked (s.record step)

theorem Walked.recounts {s : WalkState} (h : Walked s) : Recounts s := by
  induction h with
  | start runId maxSteps suspendWaits clock => exact ⟨fun _ _ => Iff.rfl, fun hcut => by cases hcut⟩
  | later before clock now ih => exact ⟨ih.going, ih.cut⟩
  | called before j c ih => exact (carried_recounts j).callAll [c] ih
  | recorded before step kindless ih => exact ih.record kindless

/-- Calls with the journey of each. -/
def callEach (calls : List (Journey × WalkCall)) (s : WalkState) : WalkState :=
  calls.foldl (fun s c => s.call c.1 c.2) s

/-- The state that is reloaded from the log of another, at its base time. -/
def reload (clock : Instant) (s : WalkState) : WalkState :=
  (ofLog s.runId s.log s.maxSteps s.suspendWaits clock).withNow s.now

/-- A step as it is told at another time. -/
def toldAt (clock : Instant) (step : Step) : Step := { step with timestamp := clock }

/-- A state and one that was reloaded when it was as before. Since then the same was added to both:
steps, requests and, unless both were cut, pending points. -/
structure Reloaded (clock : Instant) (before s t : WalkState) : Prop where
  log : ∃ steps, s.log = before.log ++ steps ∧ t.log = before.log ++ steps.map (toldAt clock)
  dispatches : ∃ asked, s.dispatches = before.dispatches ++ asked ∧ t.dispatches = asked
  pending : s.truncated = false → ∃ new, s.pending = before.pending ++ new ∧ t.pending = new
  cleared : s.truncated = true → s.pending = [] ∧ t.pending = []
  visited : ∀ id, id ∈ t.visited ↔ id ∈ s.visited
  deferred : t.deferred = s.deferred
  truncated : t.truncated = s.truncated
  settings : t.runId = s.runId ∧ t.maxSteps = s.maxSteps ∧ t.suspendWaits = s.suspendWaits
  now : t.now = s.now
  clock : t.clock = clock

namespace Reloaded

variable {clock : Instant} {before s t : WalkState}

theorem suspends (h : Reloaded clock before s t) (mode : Mode) :
    t.suspends mode = s.suspends mode := by
  rw [WalkState.suspends, WalkState.suspends, h.settings.2.2]

/-- A move logs the same step in both states. -/
theorem step? (h : Reloaded clock before s t) (j : Journey) (m : Move) :
    m.step? j t = (m.step? j s).map (toldAt clock) := by
  obtain rfl := h.clock
  cases m with
  | visit id => rfl
  | note id node action detail => rfl
  | enroll id node e =>
    cases hmode : j.mode <;> simp [Move.step?, hmode, nodeStep, step, toldAt]
  | wait id node w =>
    have hdetail : ∀ due, t.waitDetail j.mode w due = s.waitDetail j.mode w due := by
      intro due
      unfold waitDetail
      rw [h.suspends]
    cases hw : w.until? s.now <;> simp [Move.step?, h.now, hw, hdetail, nodeStep, step, toldAt]

theorem cut (h : Reloaded clock before s t) (id : String) :
    Reloaded clock before (s.cut id) (t.cut id) := by
  obtain ⟨steps, hlog, hlog'⟩ := h.log
  refine { h with
    log := ⟨steps ++ [s.limitStep id], ?_, ?_⟩
    pending := fun hopen => by cases hopen
    cleared := fun _ => ⟨rfl, rfl⟩
    deferred := rfl
    truncated := rfl }
  · rw [WalkState.cut, hlog, List.append_assoc]
  · have hlimit : t.limitStep id = toldAt clock (s.limitStep id) := by
      simp [limitStep, step, toldAt, h.settings.2.1, h.clock]
    rw [WalkState.cut, hlog', hlimit, List.append_assoc, List.map_append]
    rfl

theorem grown (h : Reloaded clock before s t) (hopen : s.truncated = false) (j : Journey)
    (m : Move) : Reloaded clock before (s.grown j [m]) (t.grown j [m]) := by
  obtain ⟨steps, hlog, hlog'⟩ := h.log
  obtain ⟨asked, hasked, hasked'⟩ := h.dispatches
  obtain ⟨new, hnew, hnew'⟩ := h.pending hopen
  refine { h with
    log := ⟨steps ++ [m].filterMap (Move.step? j s), ?_, ?_⟩
    dispatches := ⟨asked ++ [m].flatMap (Move.requests j s.runId), ?_, ?_⟩
    pending := fun _ =>
      ⟨new ++ if s.suspends j.mode then [m].flatMap (Move.points s.now) else [], ?_, ?_⟩
    cleared := fun hcut => by cases hopen.symm.trans hcut
    visited := fun id => ?_
    deferred := ?_ }
  · rw [WalkState.grown, hlog, List.append_assoc]
  · rw [WalkState.grown, hlog', List.append_assoc, List.map_append, List.map_filterMap]
    simp only [h.step?]
  · rw [WalkState.grown, hasked, List.append_assoc]
  · rw [WalkState.grown, hasked', h.settings.1]
  · rw [WalkState.grown, hnew, List.append_assoc]
  · simp only [WalkState.grown, hnew', h.suspends, h.now]
  · simp only [WalkState.grown, List.mem_append, h.visited]
  · simp only [WalkState.grown, h.deferred, h.suspends, h.now]

/-- Walks add the same to both states, since the order in which nodes were visited does not
matter. -/
theorem walk (h : Reloaded clock before s t) (j : Journey) (agenda : List String) :
    Reloaded clock before (s.walk j agenda) (t.walk j agenda) := by
  have hcourse : j.course agenda t.visited = j.course agenda s.visited :=
    j.course_congr agenda h.visited
  rw [walk_eq, walk_eq, hcourse]
  refine performAll_rel j j _ (Reloaded clock before) (fun u v huv => ?_)
    (fun u v id _ huv => huv.cut id) (fun m _ u v hopen huv => huv.grown hopen j m) h
  obtain ⟨steps, hlog, hlog'⟩ := huv.log
  refine ⟨huv.truncated.symm, huv.settings.2.1.symm, ?_⟩
  rw [hlog, hlog']
  simp

theorem parallel (clock : Instant) (before : WalkState) (j : Journey) :
    Parallel j j (Reloaded clock before) where
  graph := rfl
  walk agenda s t h := h.walk j agenda
  retime deferred now s t _ h := { h with deferred := rfl, now := rfl }
  level s t hopen h := ⟨h.truncated.trans hopen, h.deferred⟩
  behind s t hcut h := by
    rw [drain_of_truncated j (h.truncated.trans hcut)]
    exact h

theorem callEach (h : Reloaded clock before s t) (calls : List (Journey × WalkCall)) :
    Reloaded clock before (s.callEach calls) (t.callEach calls) := by
  induction calls generalizing s t with
  | nil => exact h
  | cons c rest ih => exact ih ((parallel clock before c.1).callAll [c.2] h)

end Reloaded

/-- A state that has come about by calls is reloaded from its log without loss. The log tells of all
nodes that were visited, but for the one at which the limit may have ended it, and unless it was
ended the reloaded state goes on like the old one does if it has nothing deferred. -/
theorem reload_loses_nothing {s : WalkState} (h : Walked s) (clock : Instant) :
    (s.truncated = false → ∀ id, id ∈ (s.reload clock).visited ↔ id ∈ s.visited) ∧
    (s.truncated = true → ∃ before last, s.log = before ++ [last] ∧ last.IsLimit s.maxSteps ∧
      (s.reload clock).visited ⊆ s.visited ∧
      s.visited ⊆ last.nodeId :: (s.reload clock).visited) ∧
    (s.truncated = false → s.deferred = [] → ∀ calls : List (Journey × WalkCall),
      Reloaded clock s (s.callEach calls) ((s.reload clock).callEach calls)) := by
  have hrecounts := h.recounts
  refine ⟨fun hopen id => (hrecounts.going hopen id).symm, hrecounts.cut,
    fun hopen hdeferred calls => ?_⟩
  have hreloaded : Reloaded clock s s (s.reload clock) := by
    constructor
    case log => exact ⟨[], by simp, by simp [reload, ofLog, withNow]⟩
    case dispatches => exact ⟨[], by simp, rfl⟩
    case pending => exact fun _ => ⟨[], by simp, rfl⟩
    case cleared => exact fun hcut => by cases hopen.symm.trans hcut
    case visited => exact fun id => (hrecounts.going hopen id).symm
    case deferred => exact hdeferred.symm
    case truncated => exact hopen.symm
    case settings => exact ⟨rfl, rfl, rfl⟩
    all_goals rfl
  exact hreloaded.callEach calls

namespace roundabout

/-- A live walk up to the wait, if the limit lets it come so far, and a remark behind it. -/
def noted (limit : Nat) : WalkState :=
  ((start "run1" limit true .epoch).call { journey with mode := .live } (.walk "t")).record
    ⟨"run1", none, .skipped, "Waiting", .epoch⟩

theorem walked_noted (limit : Nat) : Walked (noted limit) :=
  .recorded (.called (.start "run1" limit true .epoch) _ _) _ rfl

/-- What is called when the wait is over. -/
def rest : List (Journey × WalkCall) := [({ journey with mode := .live }, .downstream "w")]

theorem nodeIds_rest : (((noted 10).reload .epoch).callEach rest).log.map Step.nodeId =
    ["t", "s", "s", "s", "a", "w", "run1", "t"] := by
  cbv

theorem open_noted : (noted 10).truncated = false ∧ (noted 10).deferred = [] := by
  constructor <;> cbv

theorem visited_noted : (noted 1).truncated = true ∧ (noted 1).visited = ["s", "t"] ∧
    ((noted 1).reload .epoch).visited = ["t"] := by
  refine ⟨?_, ?_, ?_⟩ <;> cbv

end roundabout

open roundabout in
/-- With room for ten steps the reloaded state goes on behind the wait like the old one. With room
for one, the limit ends the log at the switch, which has been visited and is not told of. -/
theorem reload_loses_nothing_roundabout :
    (Reloaded .epoch (noted 10) ((noted 10).callEach rest)
      (((noted 10).reload .epoch).callEach rest) ∧
      (((noted 10).reload .epoch).callEach rest).log.map Step.nodeId =
        ["t", "s", "s", "s", "a", "w", "run1", "t"]) ∧
    ∃ before last, (noted 1).log = before ++ [last] ∧ last.IsLimit 1 ∧ last.nodeId = "s" := by
  obtain ⟨-, -, hgoes⟩ := reload_loses_nothing (walked_noted 10) .epoch
  obtain ⟨-, hended, -⟩ := reload_loses_nothing (walked_noted 1) .epoch
  obtain ⟨hcut, hvisited, hreloaded⟩ := visited_noted
  refine ⟨⟨hgoes open_noted.1 open_noted.2 rest, nodeIds_rest⟩, ?_⟩
  obtain ⟨before, last, hlog, hlimit, -, hlast⟩ := hended hcut
  rw [hvisited, hreloaded] at hlast
  have hmax : (noted 1).maxSteps = 1 := by cbv
  have hid : "s" = last.nodeId := by simpa using hlast List.mem_cons_self
  exact ⟨before, last, hlog, hmax ▸ hlimit, hid.symm⟩

end WalkState

end Dunning
