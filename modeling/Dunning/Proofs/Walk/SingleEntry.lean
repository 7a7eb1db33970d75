import Dunning.Proofs.Walk.Growth

/-!
# Entering a node once

A walk extends its log and never enters a node twice, because a node that was entered
counts as visited. Every enrollment that it logs comes with one request, in the same
order.
-/
namespace Dunning

/-- Whether a step is a given action at a given node. -/
def Step.isOf (a : StepAction) (id : String) (step : Step) : Bool :=
  step.action == a && step.nodeId == id

/-- How often a log has an action at a node. -/
def entries (a : StepAction) (id : String) (log : List Step) : Nat := log.countP (Step.isOf a id)

namespace Move

/-- Whether a move can log an action at a node. -/
def isOf (a : StepAction) (id : String) : Move → Bool
  | visit _ => false
  | note other _ b _ => b == a && other == id
  | enroll other _ _ => (a == .enqueued || a == .executed) && other == id
  | wait other _ _ => a == .waited && other == id

theorem isOf_of_step? {j : Journey} {s : WalkState} {m : Move} {step : Step} {a : StepAction}
    {id : String} (h : m.step? j s = some step) (ha : a ≠ .skipped) (hof : step.isOf a id = true) :
    m.isOf a id = true := by
  have hid := nodeId_of_step? h
  simp only [Step.isOf, Bool.and_eq_true, beq_iff_eq] at hof
  obtain ⟨rfl, rfl⟩ := hof
  cases m <;> simp only [step?, Option.some.injEq, reduceCtorEq] at h <;> subst h
  case note => simp [isOf, WalkState.nodeStep, WalkState.step]
  case enroll => cases j.mode <;> simp [isOf, WalkState.nodeStep, WalkState.step]
  case wait id' node w =>
    cases hw : w.until? s.now with
    | none => simp [hw, WalkState.nodeStep, WalkState.step] at ha
    | some t => simp [isOf, WalkState.nodeStep, WalkState.step]

/-- The entries that moves add to a log are those that they can log. -/
theorem entries_filterMap_le (j : Journey) (s : WalkState) {a : StepAction} (ha : a ≠ .skipped)
    (id : String) (moves : List Move) :
    entries a id (moves.filterMap (step? j s)) ≤ moves.countP (isOf a id) := by
  induction moves with
  | nil => exact Nat.le_refl _
  | cons m rest ih =>
    rw [List.countP_cons]
    cases h : m.step? j s with
    | none => rw [List.filterMap_cons_none h]; omega
    | some step =>
      rw [List.filterMap_cons_some h]
      unfold entries at ih ⊢
      rw [List.countP_cons]
      by_cases hof : step.isOf a id = true
      · rw [isOf_of_step? h ha hof, if_pos hof, if_pos rfl]
        omega
      · rw [if_neg hof]
        omega

end Move

namespace Journey

theorem countP_branchMoves_le (j : Journey) (id : String) (node : Node) {a : StepAction}
    (ha : a ≠ .skipped) (other : String) (branches : List Branch) :
    (j.branchMoves id node branches).countP (Move.isOf a other) ≤
      if a = .matched ∧ id = other then 1 else 0 := by
  induction branches with
  | nil => exact Nat.zero_le _
  | cons b rest ih =>
    simp only [branchMoves]
    split
    · rw [List.countP_singleton]
      by_cases h : a = .matched ∧ id = other
      · obtain ⟨rfl, rfl⟩ := h
        simp [Move.isOf]
      · have hno : ¬(StepAction.matched = a ∧ id = other) := fun e => h ⟨e.1.symm, e.2⟩
        simp [Move.isOf, hno]
    · have hno : ¬StepAction.skipped = a := fun e => ha e.symm
      rw [List.countP_cons_of_neg (by simp [Move.isOf, hno])]
      exact ih

/-- Entering a node logs no action twice, and nothing at another node. -/
theorem countP_entry_le (j : Journey) {a : StepAction} (ha : a ≠ .skipped) (id other : String)
    (node : Node) : (Move.visit other :: j.entryMoves other node).countP (Move.isOf a id) ≤
      if other = id then 1 else 0 := by
  rw [List.countP_cons_of_neg (by simp [Move.isOf])]
  by_cases h : other = id
  · subst h
    rw [if_pos rfl]
    cases hbody : node.body with
    | trigger t =>
      simp only [entryMoves, hbody]
      exact List.countP_le_length
    | «switch» branches =>
      have hbranches := countP_branchMoves_le j other node ha other branches
      simp only [entryMoves, hbody, List.countP_cons, Move.isOf, beq_self_eq_true, Bool.and_true,
        beq_iff_eq]
      by_cases he : StepAction.evaluated = a
      · subst he
        simp only [reduceCtorEq, false_and, if_false] at hbranches
        simp only [if_true]
        omega
      · rw [if_neg he]
        split at hbranches <;> omega
    | enroll e =>
      simp only [entryMoves, hbody]
      exact List.countP_le_length
    | wait w =>
      simp only [entryMoves, hbody]
      exact List.countP_le_length
  · rw [if_neg h]
    cases hbody : node.body with
    | trigger t => simp [entryMoves, hbody, Move.isOf, h]
    | «switch» branches =>
      have hbranches := countP_branchMoves_le j other node ha id branches
      simp only [h, and_false, if_false] at hbranches
      simp only [entryMoves, hbody]
      rw [List.countP_cons_of_neg (by simp [Move.isOf, h])]
      exact hbranches
    | enroll e => simp [entryMoves, hbody, Move.isOf, h]
    | wait w => simp [entryMoves, hbody, Move.isOf, h]

/-- A course has an action at a node at most once, and not if the node was visited before. -/
theorem countP_course_isOf_le (j : Journey) {a : StepAction} (ha : a ≠ .skipped) (id : String)
    (agenda visited : List String) :
    (j.course agenda visited).countP (Move.isOf a id) ≤ if id ∈ visited then 0 else 1 := by
  refine countP_course_le j _ id ?_ (fun other node => countP_entry_le j ha id other node) _ _
  intro other node
  have hno : (StepAction.skipped == a) = false := by simpa using fun e => ha e.symm
  simp [revisit, Move.isOf, hno]

end Journey

namespace WalkState

/-- What one walk does to the number of entries: there may be one more if the node is new. -/
theorem entries_walk_le (j : Journey) {a : StepAction} (ha : a ≠ .skipped) (id : String)
    (agenda : List String) (s : WalkState) :
    entries a id (s.walk j agenda).log ≤ entries a id s.log + if id ∈ s.visited then 0 else 1 := by
  have hcourse := j.countP_course_isOf_le ha id agenda s.visited
  have hgrown : ∀ made, made.countP (Move.isOf a id) ≤ (if id ∈ s.visited then 0 else 1) →
      entries a id (s.grown j made).log ≤
        entries a id s.log + if id ∈ s.visited then 0 else 1 := by
    intro made hmade
    have hadded := Move.entries_filterMap_le j s ha id made
    simp only [grown, entries, List.countP_append] at hadded ⊢
    omega
  rcases walk_cases j agenda s with ⟨-, hsame⟩ | ⟨-, hall⟩ | ⟨-, made, m, rest, hsplit, hcut, -⟩
  · rw [hsame]
    exact Nat.le_add_right _ _
  · rw [hall]
    exact hgrown _ hcourse
  · rw [hcut]
    rw [hsplit, List.countP_append] at hcourse
    have hlimit : entries a id [(s.grown j made).limitStep m.nodeId] = 0 := by
      have hno : (StepAction.skipped == a) = false := by simpa using fun e => ha e.symm
      simp [entries, Step.isOf, limitStep, step, hno]
    have := hgrown made (by omega)
    simp only [cut, entries, List.countP_append] at hlimit this ⊢
    omega

/-- A step of the engine, which belongs to no node. -/
def IsRemark (step : Step) : Prop := step.nodeKind = none ∧ step.action = .skipped

/-- A property of states that walks keep, whatever the base time, and that is not lost with
points. -/
structure Carried (j : Journey) (P : WalkState → Prop) : Prop where
  walk : ∀ agenda s, P s → P (s.walk j agenda)
  retime : ∀ pending deferred now s, pending.Sublist s.pending → P s →
    P { s with pending := pending, deferred := deferred, now := now }

/-- A property that walks and remarks keep. -/
structure Steady (j : Journey) (P : WalkState → Prop) : Prop extends Carried j P where
  remark : ∀ step s, IsRemark step → P s → P (s.record step)

namespace Carried

variable {j : Journey} {P : WalkState → Prop}

theorem walkDownstream (h : Carried j P) (id : String) {s : WalkState} (hs : P s) :
    P (s.walkDownstream j id) := h.walk _ s hs

theorem foldl_walkDownstream (h : Carried j P) (points : List ResumePoint) {s : WalkState}
    (hs : P s) :
    P (points.foldl (fun s p => s.walkDownstream j p.nodeId) s) := by
  induction points generalizing s with
  | nil => exact hs
  | cons p rest ih => exact ih (h.walkDownstream p.nodeId hs)

/-- What walks keep, the continuation of deferred waits keeps. -/
theorem drain (h : Carried j P) {s : WalkState} (hs : P s) : P (s.drain j) := by
  fun_induction WalkState.drain j s with
  | case1 s ht => exact hs
  | case2 s ht found => exact hs
  | case3 s ht point others found ih =>
    exact ih (h.walkDownstream point.nodeId
      (h.retime s.pending others point.resumeAt s (.refl _) hs))

end Carried

/-- Recording is appending a step, the one at hand or the last one of a truncated log. -/
theorem record_cases (s : WalkState) (step : Step) :
    s.record step = s ∨ s.record step = s.cut step.nodeId ∨
      s.record step = { s with log := s.log ++ [step] } := by
  simp only [record]
  split
  · exact .inl rfl
  · split
    · exact .inr (.inl rfl)
    · exact .inr (.inr rfl)

/-- The visited nodes are those that the log tells of. -/
def Accounted (s : WalkState) : Prop :=
  s.truncated = false → ∀ id, id ∈ s.visited ↔ id ∈ enteredIds s.log

theorem accounted_grown_course (j : Journey) (agenda : List String) {s : WalkState}
    (h : ∀ id, id ∈ s.visited ↔ id ∈ enteredIds s.log) (id : String) :
    id ∈ (s.grown j (j.course agenda s.visited)).visited ↔
      id ∈ enteredIds (s.grown j (j.course agenda s.visited)).log := by
  have hlog : enteredIds (s.grown j (j.course agenda s.visited)).log = enteredIds s.log ++
      ((j.course agenda s.visited).filter Move.logs).map Move.nodeId := by
    rw [← Move.enteredIds_filterMap j s]
    simp [enteredIds, grown]
  rw [hlog, List.mem_append, ← h id]
  constructor
  · intro hid
    rcases List.mem_append.1 hid with hid | hid
    · obtain ⟨m, hm, hlogs, rfl⟩ := j.exists_move_of_mem_visits agenda s.visited id hid
      exact .inr (List.mem_map.2 ⟨m, List.mem_filter.2 ⟨hm, hlogs⟩, rfl⟩)
    · exact .inl hid
  · intro hid
    rcases hid with hid | hid
    · exact List.mem_append_right _ hid
    · obtain ⟨m, hm, rfl⟩ := List.mem_map.1 hid
      exact j.nodeId_mem_of_mem_course agenda s.visited m (List.mem_filter.1 hm).1

theorem steady_accounted (j : Journey) : Steady j Accounted where
  walk agenda s hs := by
    rcases walk_cases j agenda s with ⟨-, hsame⟩ | ⟨h, hall⟩ | ⟨-, made, m, rest, -, hcut, -⟩
    · rw [hsame]
      exact hs
    · rw [hall]
      exact fun _ => accounted_grown_course j agenda (hs h)
    · rw [hcut]
      intro hopen
      exact absurd hopen (by simp)
  remark step s hstep hs := by
    rcases record_cases s step with h | h | h <;> rw [h]
    · exact hs
    · intro hopen
      exact absurd hopen (by simp)
    · intro hopen id
      simpa [enteredIds, hstep.1] using hs hopen id
  retime _ _ _ _ _ hs := hs

/-- A log in which no action but a skip happens twice at a node, and all such actions belong to
nodes. -/
structure EnteredOnce (log : List Step) : Prop where
  once : ∀ a id, a ≠ .skipped → entries a id log ≤ 1
  kinded : ∀ step ∈ log, step.action ≠ .skipped → step.nodeKind.isSome = true

theorem EnteredOnce.nil : EnteredOnce [] := ⟨fun _ _ _ => Nat.zero_le _, by simp⟩

/-- Where an action other than a skip is logged, the node is one that the log tells of. -/
theorem EnteredOnce.entries_eq_zero {log : List Step} (h : EnteredOnce log) {a : StepAction}
    (ha : a ≠ .skipped) {id : String} (hid : id ∉ enteredIds log) : entries a id log = 0 := by
  refine List.countP_eq_zero.2 fun step hstep hof => hid ?_
  simp only [Step.isOf, Bool.and_eq_true, beq_iff_eq] at hof
  obtain ⟨rfl, rfl⟩ := hof
  exact List.mem_map.2 ⟨step, List.mem_filter.2 ⟨hstep, h.kinded step hstep ha⟩, rfl⟩

theorem EnteredOnce.concat_skipped {log : List Step} (h : EnteredOnce log) {step : Step}
    (hstep : step.action = .skipped) : EnteredOnce (log ++ [step]) where
  once a id ha := by
    have hno : (StepAction.skipped == a) = false := by simpa using fun e => ha e.symm
    have := h.once a id ha
    simpa [entries, Step.isOf, List.countP_append, hstep, hno] using this
  kinded other hother ha := by
    rcases List.mem_append.1 hother with hother | hother
    · exact h.kinded other hother ha
    · rw [List.mem_singleton.1 hother] at ha
      exact absurd hstep ha

/-- Walks keep logs entered once, since all that they tell of counts as visited. -/
theorem steady_enteredOnce (j : Journey) : Steady j fun s => Accounted s ∧ EnteredOnce s.log where
  walk agenda s hs := by
    obtain ⟨haccounted, honce⟩ := hs
    refine ⟨(steady_accounted j).walk agenda s haccounted, ?_, ?_⟩
    · intro a id ha
      have hwalk := entries_walk_le j ha id agenda s
      cases h : s.truncated with
      | true =>
        rw [walk_of_truncated j agenda h]
        exact honce.once a id ha
      | false =>
        by_cases hid : id ∈ s.visited
        · rw [if_pos hid] at hwalk
          have := honce.once a id ha
          omega
        · rw [if_neg hid, honce.entries_eq_zero ha (mt (haccounted h id).2 hid)] at hwalk
          exact hwalk
    · have hgrown : ∀ made, ∀ step ∈ (s.grown j made).log, step.action ≠ .skipped →
          step.nodeKind.isSome = true := by
        intro made step hstep ha
        rcases List.mem_append.1 hstep with hstep | hstep
        · exact honce.kinded step hstep ha
        · obtain ⟨m, -, hm⟩ := List.mem_filterMap.1 hstep
          exact Move.nodeKind_of_step? hm
      rcases walk_cases j agenda s with ⟨-, hsame⟩ | ⟨-, hall⟩ | ⟨-, made, m, rest, -, hcut, -⟩
      · rw [hsame]
        exact honce.kinded
      · rw [hall]
        exact hgrown _
      · rw [hcut]
        intro step hstep ha
        rcases List.mem_append.1 hstep with hstep | hstep
        · exact hgrown made step hstep ha
        · rw [List.mem_singleton.1 hstep] at ha
          exact absurd rfl ha
  remark step s hstep hs := by
    refine ⟨(steady_accounted j).remark step s hstep hs.1, ?_⟩
    rcases record_cases s step with h | h | h <;> rw [h]
    · exact hs.2
    · exact hs.2.concat_skipped rfl
    · exact hs.2.concat_skipped hstep.2
  retime _ _ _ _ _ hs := hs

end WalkState

end Dunning
