import Dunning.Proofs.Walk.Exploration
import Dunning.Proofs.Walk.Limit
import Dunning.Proofs.Walk.Outbox

/-!
# States that chart an exploration

The log of a state tells the moves of an exploration, mark by mark, and the points of the
state are those waits that it has met and not gone behind yet. Walks, and with them the
drain, keep this up as long as they are not cut and every wait that they meet has an end.
A cut state has charted a part of an exploration that is longer than the limit.
-/
namespace Dunning

/-- The step of a wait whose end would be past the last instant. -/
def Step.OutOfRange (step : Step) : Prop :=
  step.nodeKind = some .wait ∧ step.action = .skipped ∧
    ∃ w : Wait, step.detail = "Wait of " ++ w.describe ++ " is out of range; path stopped"

/-- A log in which no wait is skipped has none out of range. -/
theorem not_outOfRange_of_marks {log : List Step} (h : ∀ mark ∈ log.map Step.mark,
    mark.nodeKind = some .wait → mark.action ≠ .skipped) : ∀ step ∈ log, ¬step.OutOfRange :=
  fun step hstep hout => h step.mark (List.mem_map_of_mem hstep) hout.1 hout.2.1

namespace Move

/-- What the step of a move says of its node, and the point that the move leaves, when no wait is out
of range. -/
theorem marks_of_step? {j : Journey} {s : WalkState} {m : Move} (fits : m.Fits j.graph)
    (inRange : ∀ step ∈ (m.step? j s).toList, ¬step.OutOfRange) :
    (m.step? j s).toList.map Step.mark = m.marks j.mode ∧
      (m.points s.now).map ResumePoint.nodeId = m.waitIds := by
  cases m with
  | visit id => exact ⟨rfl, rfl⟩
  | note id node action detail => exact ⟨rfl, rfl⟩
  | enroll id node e =>
    cases hmode : j.mode <;> simp [step?, hmode, marks, Step.mark, WalkState.nodeStep,
      WalkState.step, points, waitIds]
  | wait id node w =>
    cases hw : w.until? s.now with
    | none =>
      have hkind : node.kind = .wait := by rw [Node.kind, fits.2]; rfl
      refine absurd ?_ (inRange _ (Option.mem_toList.2 rfl))
      rw [hw]
      exact ⟨congrArg some hkind, rfl, w, rfl⟩
    | some resumeAt =>
      simp [step?, hw, marks, Step.mark, WalkState.nodeStep, WalkState.step, points, waitIds]

theorem marks_of_filterMap {j : Journey} {s : WalkState} {moves : List Move}
    (fits : ∀ m ∈ moves, m.Fits j.graph)
    (inRange : ∀ step ∈ moves.filterMap (step? j s), ¬step.OutOfRange) :
    (moves.filterMap (step? j s)).map Step.mark = moves.flatMap (marks j.mode) ∧
      (moves.flatMap (points s.now)).map ResumePoint.nodeId = moves.flatMap waitIds := by
  induction moves with
  | nil => exact ⟨rfl, rfl⟩
  | cons m rest ih =>
    rw [filterMap_step?_cons] at inRange ⊢
    have hfirst := marks_of_step? (fits m List.mem_cons_self) fun step hstep =>
      inRange step (List.mem_append_left _ hstep)
    have hrest := ih (fun other hother => fits other (List.mem_cons_of_mem m hother))
      fun step hstep => inRange step (List.mem_append_right _ hstep)
    constructor
    · rw [List.map_append, hfirst.1, hrest.1, List.flatMap_cons]
    · rw [List.flatMap_cons, List.map_append, hfirst.2, hrest.2, List.flatMap_cons]

/-- The nodes of marks are those of the moves. -/
theorem map_nodeId_marks (mode : Mode) (moves : List Move) :
    (moves.flatMap (marks mode)).map Mark.nodeId = nodeIds moves := by
  induction moves with
  | nil => rfl
  | cons m rest ih =>
    rw [List.flatMap_cons, List.map_append, ih]
    cases m <;> rfl

end Move

namespace WalkState

/-- Whether all waits that a state tells of had an end. -/
def InRange (s : WalkState) : Prop := ∀ step ∈ s.log, ¬step.OutOfRange

/-- A state that tells of an exploration. Of the waits met, those not taken are owed or have their
points in the state. -/
structure Charted (j : Journey) (first : List Move) (ids : List String) (moves : List Move)
    (owed : List String) (s : WalkState) : Prop where
  explored : j.Explored first ids moves
  log : s.log.map Step.mark = moves.flatMap (Move.marks j.mode)
  visited : ∀ id, id ∈ s.visited ↔ id ∈ Move.visits moves
  waits : (ids ++ (owed ++ (s.pending ++ s.deferred).map ResumePoint.nodeId)).Perm
    (moves.flatMap Move.waitIds)

/-- A cut state that tells of a part of an exploration which does not fit its limit. -/
structure Overrun (j : Journey) (first : List Move) (ids : List String) (moves : List Move)
    (s : WalkState) : Prop where
  explored : j.Explored first ids moves
  cut : s.truncated = true
  exceeded : s.maxSteps < (Move.nodeIds moves).length
  visited : ∀ id ∈ s.visited, id ∈ Move.visits moves

variable {j : Journey} {ids owed : List String} {first moves : List Move} {s : WalkState}

theorem InRange.of_prefix {t : WalkState} (h : t.InRange) (before : s.log <+: t.log) : s.InRange :=
  fun step hstep => h step (before.subset hstep)

/-- Draining only adds to the log. -/
theorem log_prefix_drain (j : Journey) (s : WalkState) : s.log <+: (s.drain j).log :=
  ((steady_extends j s.runId s.log s.dispatches).drain (Extends.self j s)).log_grows

theorem log_prefix_foldl (j : Journey) (points : List ResumePoint) (s : WalkState) :
    s.log <+: (points.foldl (fun s p => s.walkDownstream j p.nodeId) s).log :=
  ((steady_extends j s.runId s.log s.dispatches).foldl_walkDownstream points
    (Extends.self j s)).log_grows

/-- What a walk adds to a state, when it is not cut and no wait is out of range. -/
theorem charts_of_walk (agenda : List String) (hopen : (s.walk j agenda).truncated = false)
    (inRange : (s.walk j agenda).InRange) :
    (s.walk j agenda).log.map Step.mark =
        s.log.map Step.mark ++ (j.course agenda s.visited).flatMap (Move.marks j.mode) ∧
      (s.walk j agenda).visited = Move.visits (j.course agenda s.visited) ++ s.visited ∧
      (((s.walk j agenda).pending ++ (s.walk j agenda).deferred).map ResumePoint.nodeId).Perm
        ((s.pending ++ s.deferred).map ResumePoint.nodeId ++
          (j.course agenda s.visited).flatMap Move.waitIds) := by
  have hgrown := (walk_of_open j agenda hopen).2
  have hadded : ∀ step ∈ (j.course agenda s.visited).filterMap (Move.step? j s),
      ¬step.OutOfRange := by
    intro step hstep
    refine inRange step ?_
    rw [hgrown]
    exact List.mem_append_right _ hstep
  obtain ⟨hmarks, hpoints⟩ :=
    Move.marks_of_filterMap (j.fits_of_mem_course agenda s.visited) hadded
  rw [hgrown]
  refine ⟨?_, rfl, ?_⟩
  · rw [← hmarks, ← List.map_append]
    rfl
  · rw [← hpoints, ← List.map_append]
    refine List.Perm.map _ ?_
    simp only [grown]
    split
    · simpa [List.append_assoc] using List.perm_append_comm.append_left s.pending
    · simp [List.append_assoc]

/-- A walk from the starts charts the start of an exploration. -/
theorem charted_start {starts : List String} (blank : s.log = [] ∧ s.visited = [] ∧
    s.pending = [] ∧ s.deferred = []) (hopen : (s.walk j starts).truncated = false)
    (inRange : (s.walk j starts).InRange) :
    Charted j (j.course starts []) [] (j.course starts []) [] (s.walk j starts) := by
  obtain ⟨hlog, hvisited, hpending, hdeferred⟩ := blank
  obtain ⟨hmarks, hvisits, hpoints⟩ := charts_of_walk starts hopen inRange
  rw [hvisited] at hmarks hvisits hpoints
  refine ⟨.start, ?_, fun id => ?_, ?_⟩
  · rw [hmarks, hlog]
    rfl
  · rw [hvisits, List.append_nil]
  · simpa [hpending, hdeferred] using hpoints

/-- The course behind a wait depends on what the exploration has visited. -/
theorem Charted.course_eq (h : Charted j first ids moves owed s) (agenda : List String) :
    j.course agenda s.visited = j.course agenda (Move.visits moves) :=
  j.course_congr agenda h.visited

/-- An owed wait has been met and not been taken. -/
theorem Charted.met {id : String} (h : Charted j first ids moves (id :: owed) s) :
    (id :: ids).Subperm (moves.flatMap Move.waitIds) := by
  have hfirst : (id :: ids).Sublist (id :: (ids ++ (owed ++ (s.pending ++ s.deferred).map
      ResumePoint.nodeId))) := (List.sublist_append_left ids _).cons_cons id
  exact hfirst.subperm.trans (List.perm_middle.symm.trans h.waits).subperm

/-- Going on behind an owed wait takes the exploration on. -/
theorem Charted.leg {id : String} (h : Charted j first ids moves (id :: owed) s)
    (hopen : (s.walkDownstream j id).truncated = false) (inRange : (s.walkDownstream j id).InRange) :
    Charted j first (id :: ids) (moves ++ j.course (j.targets id) (Move.visits moves)) owed
      (s.walkDownstream j id) := by
  obtain ⟨hmarks, hvisits, hpoints⟩ := charts_of_walk (j.targets id) hopen inRange
  rw [h.course_eq] at hmarks hvisits hpoints
  refine ⟨.next h.explored h.met, ?_, fun other => ?_, ?_⟩
  · rw [List.flatMap_append, ← h.log]
    exact hmarks
  · have hmem : other ∈ (s.walkDownstream j id).visited ↔
        other ∈ Move.visits (j.course (j.targets id) (Move.visits moves)) ++ s.visited :=
      iff_of_eq (congrArg (other ∈ ·) hvisits)
    rw [hmem, Move.visits_append, List.mem_append, List.mem_append, h.visited]
  · rw [List.flatMap_append]
    -- The owed wait joins those taken, and the waits of the new course those with points.
    let more := (j.course (j.targets id) (Move.visits moves)).flatMap Move.waitIds
    let points := (s.pending ++ s.deferred).map ResumePoint.nodeId
    have hwaits : (ids ++ id :: (owed ++ (points ++ more))).Perm
        (moves.flatMap Move.waitIds ++ more) := by
      simpa [points, List.append_assoc] using h.waits.append_right more
    have htaken : (id :: ids ++ (owed ++ (points ++ more))).Perm
        (ids ++ id :: (owed ++ (points ++ more))) := List.perm_middle.symm
    exact ((hpoints.append_left owed).append_left (id :: ids)).trans (htaken.trans hwaits)

/-- Going on behind owed waits, one after the other, takes the exploration on. -/
theorem Charted.foldl {points : List ResumePoint}
    (h : Charted j first ids moves (points.map ResumePoint.nodeId ++ owed) s)
    (hopen : (points.foldl (fun s p => s.walkDownstream j p.nodeId) s).truncated = false)
    (inRange : (points.foldl (fun s p => s.walkDownstream j p.nodeId) s).InRange) :
    ∃ ids' moves', Charted j first ids' moves' owed
      (points.foldl (fun s p => s.walkDownstream j p.nodeId) s) := by
  induction points generalizing s ids moves with
  | nil => exact ⟨ids, moves, h⟩
  | cons p rest ih =>
    rw [List.foldl_cons] at hopen inRange ⊢
    have hleg : (s.walkDownstream j p.nodeId).truncated = false := by
      cases hcut : (s.walkDownstream j p.nodeId).truncated with
      | false => rfl
      | true => rw [← hopen, foldl_walkDownstream_of_truncated j rest hcut, hcut]
    have hrange := inRange.of_prefix (log_prefix_foldl j rest _)
    exact ih (h.leg hleg hrange) hopen inRange

/-- Moves that do not fit the limit of a state cut it. -/
theorem limit_lt_of_cut (j : Journey) (moves : List Move) {s : WalkState}
    (hopen : s.truncated = false) (hcut : (s.performAll j moves).truncated = true) :
    s.maxSteps < s.log.length + (Move.nodeIds moves).length := by
  induction moves generalizing s with
  | nil => cases hopen.symm.trans hcut
  | cons m rest ih =>
    have hlength : (Move.nodeIds (m :: rest)).length =
        (if m.logs then 1 else 0) + (Move.nodeIds rest).length := by
      cases hlogs : m.logs <;> simp [Move.nodeIds, hlogs, Nat.add_comm]
    rw [performAll_cons] at hcut
    rcases perform_cases j hopen m with ⟨hfull, hlogs, -⟩ | ⟨-, hgrown⟩
    · rw [hlength, hlogs, if_pos rfl]
      omega
    · rw [hgrown] at hcut
      have hrest := ih (s := s.grown j [m]) hopen hcut
      have hmax : (s.grown j [m]).maxSteps = s.maxSteps := rfl
      rw [hmax, length_grown_singleton] at hrest
      omega

/-- A walk that is cut was to make more moves than fit the limit. -/
theorem overrun_of_walk {agenda : List String} (explored : j.Explored first ids
      (moves ++ j.course agenda (Move.visits moves)))
    (marks : s.log.map Step.mark = moves.flatMap (Move.marks j.mode))
    (visited : ∀ id, id ∈ s.visited ↔ id ∈ Move.visits moves) (hopen : s.truncated = false)
    (hcut : (s.walk j agenda).truncated = true) :
    Overrun j first ids (moves ++ j.course agenda (Move.visits moves)) (s.walk j agenda) := by
  have hcourse := j.course_congr agenda visited
  have hlength : s.log.length = (Move.nodeIds moves).length := by
    have hnodes := congrArg List.length (congrArg (List.map Mark.nodeId) marks)
    rwa [Move.map_nodeId_marks, List.length_map, List.length_map] at hnodes
  refine ⟨explored, hcut, ?_, ?_⟩
  · have hlimit := limit_lt_of_cut j (j.course agenda s.visited) hopen (by rwa [← walk_eq])
    have hmax : (s.walk j agenda).maxSteps = s.maxSteps :=
      (steady_maxSteps j s.maxSteps).walk agenda s rfl
    rw [hmax, Move.nodeIds_append, List.length_append, ← hcourse]
    omega
  · intro id hid
    rw [Move.visits_append, ← hcourse, List.mem_append, ← visited id]
    rcases walk_cases j agenda s with ⟨-, hsame⟩ | ⟨-, hall⟩ | ⟨-, made, m, rest, hsplit, hend, -⟩
    · rw [hsame] at hid
      exact .inr hid
    · rw [hall] at hid
      exact List.mem_append.1 hid
    · rw [hend] at hid
      refine (List.mem_append.1 hid).imp_left fun hmade => ?_
      rw [hsplit, Move.visits_append]
      exact List.mem_append_right _ hmade

/-- A drain takes the exploration to its end, or to where it is cut. -/
theorem Charted.drain (h : Charted j first ids moves [] s) (hopen : s.truncated = false)
    (inRange : (s.drain j).InRange) : ∃ ids' moves',
      ((s.drain j).truncated = false ∧ (s.drain j).deferred = [] ∧
        Charted j first ids' moves' [] (s.drain j)) ∨
      Overrun j first ids' moves' (s.drain j) := by
  fun_induction WalkState.drain j s generalizing ids moves with
  | case1 s ht => cases hopen.symm.trans ht
  | case2 s ht found => exact ⟨ids, moves, .inl ⟨hopen, takeEarliest_eq_none found, h⟩⟩
  | case3 s ht point others found ih =>
    -- The earliest of the deferred waits is now the one that is owed.
    have hopened : Charted j first ids moves [point.nodeId]
        { s with deferred := others, now := point.resumeAt } := by
      refine ⟨h.explored, h.log, h.visited, ?_⟩
      obtain ⟨before, behind, hdeferred, rfl, -⟩ := takeEarliest_eq_some found
      have htaken : (point :: (s.pending ++ (before ++ behind))).Perm
          (s.pending ++ s.deferred) := by
        rw [hdeferred, ← List.append_assoc, ← List.append_assoc]
        exact List.perm_middle.symm
      exact ((htaken.map ResumePoint.nodeId).append_left ids).trans h.waits
    cases hleg : ({ s with deferred := others, now := point.resumeAt }.walkDownstream j
        point.nodeId).truncated with
    | true =>
      refine ⟨point.nodeId :: ids,
        moves ++ j.course (j.targets point.nodeId) (Move.visits moves), .inr ?_⟩
      rw [drain_of_truncated j hleg]
      exact overrun_of_walk (.next h.explored hopened.met) h.log h.visited hopen hleg
    | false =>
      have hrange := inRange.of_prefix (log_prefix_drain j _)
      exact ih (hopened.leg hleg hrange) hleg inRange

end WalkState

end Dunning
