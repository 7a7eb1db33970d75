import Dunning.Proofs.Walk.Course

/-!
# What moves add to a state

Every move but a visit logs one step. As long as there is room for it, the move also
has its effect: a node is visited, a request is made, a point is left. At the step
limit the state is cut instead. So the outcome of a list of moves is what a first part
of them adds, and a cut if they were not all made.
-/
namespace Dunning

namespace Move

/-- The step that a move logs in a state. -/
def step? (j : Journey) (s : WalkState) : Move → Option Step
  | visit _ => none
  | note id node action detail => some (s.nodeStep id node action detail)
  | enroll id node e => some (match j.mode with
      | .live => s.nodeStep id node .enqueued
          ("Enrollment in sequence '" ++ e.sequence ++ "' enqueued")
      | .dryRun => s.nodeStep id node .executed
          ("[Dry run] Would enroll contact in sequence '" ++ e.sequence ++ "'; nothing dispatched"))
  | wait id node w => some (match w.until? s.now with
      | none => s.nodeStep id node .skipped
          ("Wait of " ++ w.describe ++ " is out of range; path stopped")
      | some resumeAt => s.nodeStep id node .waited (s.waitDetail j.mode w resumeAt))

/-- The request that a move makes on behalf of a run. -/
def requests (j : Journey) (runId : String) : Move → List DispatchRequest
  | enroll id _ e => match j.mode with
      | .live => [⟨runId, j.event.orgId, id, j.event.contactId, j.event.invoiceId, e.sequence⟩]
      | .dryRun => []
  | _ => []

/-- The point that a move leaves at a wait which begins at `now`. -/
def points (now : Instant) : Move → List ResumePoint
  | wait id _ w => ((w.until? now).map (ResumePoint.mk id)).toList
  | _ => []

theorem nodeId_of_step? {j : Journey} {s : WalkState} {m : Move} {step : Step}
    (h : m.step? j s = some step) : step.nodeId = m.nodeId := by
  cases m <;> simp only [step?, Option.some.injEq, reduceCtorEq] at h <;> subst h
  · rfl
  · split <;> rfl
  · split <;> rfl

/-- The step of a move belongs to a node. -/
theorem nodeKind_of_step? {j : Journey} {s : WalkState} {m : Move} {step : Step}
    (h : m.step? j s = some step) : step.nodeKind.isSome = true := by
  cases m <;> simp only [step?, Option.some.injEq, reduceCtorEq] at h <;> subst h
  · rfl
  · split <;> rfl
  · split <;> rfl

theorem isSome_step? (j : Journey) (s : WalkState) (m : Move) : (m.step? j s).isSome = m.logs := by
  cases m <;> rfl

theorem filterMap_step?_cons (j : Journey) (s : WalkState) (m : Move) (rest : List Move) :
    (m :: rest).filterMap (step? j s) = (m.step? j s).toList ++ rest.filterMap (step? j s) := by
  cases h : m.step? j s <;> simp [h]

/-- The ids of the steps that moves log are those of the moves that log one. -/
theorem enteredIds_filterMap (j : Journey) (s : WalkState) (moves : List Move) :
    WalkState.enteredIds (moves.filterMap (step? j s)) = (moves.filter logs).map nodeId := by
  induction moves with
  | nil => rfl
  | cons m rest ih =>
    have hlogs := isSome_step? j s m
    unfold WalkState.enteredIds at ih ⊢
    cases h : m.step? j s with
    | none =>
      rw [h] at hlogs
      rw [List.filterMap_cons_none h, ih, List.filter_cons_of_neg (by simp [← hlogs])]
    | some step =>
      rw [h] at hlogs
      rw [List.filterMap_cons_some h, List.filter_cons, if_pos (nodeKind_of_step? h),
        List.filter_cons_of_pos hlogs.symm, List.map_cons, List.map_cons, nodeId_of_step? h, ih]

end Move

namespace WalkState

/-- The state that the step limit ends at a node. -/
def cut (s : WalkState) (id : String) : WalkState :=
  { s with truncated := true, pending := [], deferred := [], log := s.log ++ [s.limitStep id] }

/-- The state after moves for which there is room. -/
def grown (j : Journey) (moves : List Move) (s : WalkState) : WalkState :=
  { s with
    log := s.log ++ moves.filterMap (Move.step? j s)
    visited := Move.visits moves ++ s.visited
    dispatches := s.dispatches ++ moves.flatMap (Move.requests j s.runId)
    pending := s.pending ++ if s.suspends j.mode then moves.flatMap (Move.points s.now) else []
    deferred := s.deferred ++ if s.suspends j.mode then [] else moves.flatMap (Move.points s.now) }

@[simp] theorem grown_nil (j : Journey) (s : WalkState) : s.grown j [] = s := by
  simp [grown, Move.visits]

@[simp] theorem cut_truncated (s : WalkState) (id : String) : (s.cut id).truncated = true := rfl

/-- What a move logs depends on parts of the state that moves leave alone. -/
theorem step?_grown (j : Journey) (moves : List Move) (s : WalkState) (m : Move) :
    m.step? j (s.grown j moves) = m.step? j s := by
  cases m <;> rfl

theorem grown_grown (j : Journey) (ms ns : List Move) (s : WalkState) :
    (s.grown j ms).grown j ns = s.grown j (ms ++ ns) := by
  have hsteps : Move.step? j (s.grown j ms) = Move.step? j s := funext (step?_grown j ms s)
  have hsuspends : (s.grown j ms).suspends j.mode = s.suspends j.mode := rfl
  unfold grown at hsteps hsuspends ⊢
  simp only [hsteps, hsuspends, List.filterMap_append, List.flatMap_append,
    Move.visits_append, List.append_assoc, mk.injEq, true_and, and_true]
  split <;> simp

theorem record_of_room {s : WalkState} (h : s.truncated = false) (room : s.log.length < s.maxSteps)
    (step : Step) : s.record step = { s with log := s.log ++ [step] } := by
  simp [record, h, Nat.not_le.2 room]

theorem record_of_full {s : WalkState} (h : s.truncated = false) (full : s.maxSteps ≤ s.log.length)
    (step : Step) : s.record step = s.cut step.nodeId := by
  simp [record, h, full, cut]

/-- A move in a state that is not truncated has its effect, unless it logs a step and there is no
room for one. -/
theorem perform_cases (j : Journey) {s : WalkState} (h : s.truncated = false) (m : Move) :
    (s.maxSteps ≤ s.log.length ∧ m.logs = true ∧ s.perform j m = s.cut m.nodeId) ∨
      ((s.log.length < s.maxSteps ∨ m.logs = false) ∧ s.perform j m = s.grown j [m]) := by
  rcases Nat.lt_or_ge s.log.length s.maxSteps with hroom | hfull
  · refine .inr ⟨.inl hroom, ?_⟩
    have hrecord := record_of_room h hroom
    cases m with
    | visit id => simp [perform, h, visit, grown, Move.visits, Move.visited?, Move.step?,
        Move.requests, Move.points]
    | note id node action detail => simp [perform, hrecord, grown, Move.visits, Move.visited?,
        Move.step?, Move.requests, Move.points]
    | enroll id node e =>
      cases hmode : j.mode <;> simp [perform, enroll, hrecord, h, hmode, grown, Move.visits,
        Move.visited?, Move.step?, Move.requests, Move.points]
    | wait id node w =>
      cases hw : w.until? s.now with
      | none => simp [perform, wait, hrecord, hw, grown, Move.visits, Move.visited?, Move.step?,
          Move.requests, Move.points]
      | some resumeAt =>
        cases hs : s.suspends j.mode <;> simp [perform, wait, hrecord, hw, h, hs, grown,
          Move.visits, Move.visited?, Move.step?, Move.requests, Move.points]
  · have hrecord := record_of_full h hfull
    cases m with
    | visit id =>
      refine .inr ⟨.inr rfl, ?_⟩
      simp [perform, h, visit, grown, Move.visits, Move.visited?, Move.step?,
        Move.requests, Move.points]
    | note id node action detail => exact .inl ⟨hfull, rfl, hrecord _⟩
    | enroll id node e =>
      refine .inl ⟨hfull, rfl, ?_⟩
      simp only [perform, enroll]
      split
      · simp [hrecord, nodeStep, step, Move.nodeId]
      · exact hrecord _
    | wait id node w =>
      refine .inl ⟨hfull, rfl, ?_⟩
      simp only [perform, wait]
      split
      · exact hrecord _
      · simp [hrecord, nodeStep, step, Move.nodeId]

/-- Moves are all made, or a first part of them is and the step limit ends the walk at the next. -/
theorem performAll_cases (j : Journey) (moves : List Move) {s : WalkState}
    (h : s.truncated = false) :
    s.performAll j moves = s.grown j moves ∨
      ∃ made m rest, moves = made ++ m :: rest ∧
        s.performAll j moves = (s.grown j made).cut m.nodeId ∧
        s.maxSteps ≤ (s.grown j made).log.length := by
  induction moves generalizing s with
  | nil => exact .inl (grown_nil j s).symm
  | cons m rest ih =>
    rw [performAll_cons]
    rcases perform_cases j h m with ⟨hfull, -, hcut⟩ | ⟨-, hgrown⟩
    · refine .inr ⟨[], m, rest, rfl, ?_, by simpa using hfull⟩
      rw [hcut, performAll_of_truncated j (cut_truncated _ _), grown_nil]
    · rw [hgrown]
      have hopen : (s.grown j [m]).truncated = false := h
      rcases ih hopen with hall | ⟨made, m', rest', rfl, hcut, hfull⟩
      · exact .inl (by rw [hall, grown_grown, List.singleton_append])
      · rw [grown_grown, List.singleton_append] at hcut hfull
        exact .inr ⟨m :: made, m', rest', rfl, hcut, hfull⟩

theorem walk_of_truncated (j : Journey) (agenda : List String) {s : WalkState}
    (h : s.truncated = true) : s.walk j agenda = s := by
  rw [walk_eq, performAll_of_truncated j h]

/-- A walk does nothing once the state is truncated. Else it makes all the moves of its course, or
the step limit ends it at one of them. -/
theorem walk_cases (j : Journey) (agenda : List String) (s : WalkState) :
    (s.truncated = true ∧ s.walk j agenda = s) ∨
    (s.truncated = false ∧ s.walk j agenda = s.grown j (j.course agenda s.visited)) ∨
    s.truncated = false ∧ ∃ made m rest, j.course agenda s.visited = made ++ m :: rest ∧
      s.walk j agenda = (s.grown j made).cut m.nodeId ∧
      s.maxSteps ≤ (s.grown j made).log.length := by
  cases h : s.truncated with
  | true => exact .inl ⟨rfl, walk_of_truncated j agenda h⟩
  | false =>
    rw [walk_eq]
    rcases performAll_cases j (j.course agenda s.visited) h with hall | hcut
    · exact .inr (.inl ⟨rfl, hall⟩)
    · exact .inr (.inr ⟨rfl, hcut⟩)

/-- Moves only add to what was visited. -/
theorem visited_subset_performAll (j : Journey) (moves : List Move) (s : WalkState) :
    s.visited ⊆ (s.performAll j moves).visited := by
  cases hopen : s.truncated with
  | true => rw [performAll_of_truncated j hopen]; exact List.Subset.refl _
  | false =>
    rcases performAll_cases j moves hopen with hall | ⟨made, m, rest, -, hcut, -⟩
    · rw [hall]
      exact List.subset_append_right _ _
    · rw [hcut]
      exact List.subset_append_right _ _

theorem visited_subset_walk (j : Journey) (agenda : List String) (s : WalkState) :
    s.visited ⊆ (s.walk j agenda).visited := by
  rw [walk_eq]
  exact visited_subset_performAll j _ s

end WalkState

end Dunning
