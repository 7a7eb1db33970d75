import Dunning.Proofs.Walk.Growth
import Mathlib.Data.List.Forall2

/-!
# Live and dry walks in step

A live walk that suspends at waits and a dry walk of the same graph make the same moves.
Where the live walk leaves a point pending the dry one defers it, and their logs tell the
same but for enrollments, which the one asks for and the other passes over.
-/
namespace Dunning

/-- A step of a live run as a dry run foretells it: the same, but for an enrollment. -/
structure Step.Foretold (live dry : Step) : Prop where
  nodeId : live.nodeId = dry.nodeId
  nodeKind : live.nodeKind = dry.nodeKind
  action : (live.action = .enqueued ∧ dry.action = .executed) ∨
    (live.action = dry.action ∧ live.action ≠ .enqueued ∧ live.action ≠ .executed)

theorem Step.foretold_of_same {live dry : Step} (a : StepAction)
    (other : a ≠ .enqueued ∧ a ≠ .executed) (nodeId : live.nodeId = dry.nodeId)
    (nodeKind : live.nodeKind = dry.nodeKind) (action : live.action = a)
    (action' : dry.action = a) : live.Foretold dry := by
  subst action
  exact ⟨nodeId, nodeKind, .inr ⟨action'.symm, other⟩⟩

/-- Logs that tell the same of which nodes were entered. -/
theorem enteredIds_of_foretold {live dry : List Step} (h : List.Forall₂ Step.Foretold live dry) :
    WalkState.enteredIds live = WalkState.enteredIds dry := by
  induction h with
  | nil => rfl
  | cons hstep _ ih =>
    unfold WalkState.enteredIds at ih ⊢
    rw [List.filter_cons, List.filter_cons, hstep.nodeKind]
    split
    · rw [List.map_cons, List.map_cons, hstep.nodeId, ih]
    · exact ih

theorem nodeIds_of_foretold {live dry : List Step} (h : List.Forall₂ Step.Foretold live dry) :
    live.map Step.nodeId = dry.map Step.nodeId := by
  induction h with
  | nil => rfl
  | cons hstep _ ih => rw [List.map_cons, List.map_cons, hstep.nodeId, ih]

namespace Move

/-- Whether a move comes to a wait. -/
def waits : Move → Bool
  | wait _ _ _ => true
  | _ => false

end Move

namespace Journey

/-- The mode has no say in which moves are made. -/
theorem course_mode (g : Graph) (event : Event) (m m' : Mode) (agenda visited : List String) :
    (⟨g, event, m⟩ : Journey).course agenda visited =
      (⟨g, event, m'⟩ : Journey).course agenda visited := by
  have hbranches : ∀ id node branches, (⟨g, event, m⟩ : Journey).branchMoves id node branches =
      (⟨g, event, m'⟩ : Journey).branchMoves id node branches := by
    intro id node branches
    induction branches with
    | nil => rfl
    | cons b rest ih => simp only [branchMoves, ih]
  have htargets : ∀ id branches, (⟨g, event, m⟩ : Journey).branchTargets id branches =
      (⟨g, event, m'⟩ : Journey).branchTargets id branches := by
    intro id branches
    induction branches with
    | nil => rfl
    | cons b rest ih => simp only [branchTargets, ih]
  have hentry : ∀ id node, (⟨g, event, m⟩ : Journey).entryMoves id node =
      (⟨g, event, m'⟩ : Journey).entryMoves id node := by
    intro id node
    simp only [entryMoves, hbranches]
  have honward : ∀ id node, (⟨g, event, m⟩ : Journey).onward id node =
      (⟨g, event, m'⟩ : Journey).onward id node := by
    intro id node
    simp only [onward, htargets]
  fun_induction course (⟨g, event, m⟩ : Journey) agenda visited with
  | case1 visited => rw [course_nil]
  | case2 visited id rest missing ih =>
    rw [course_of_missing (j := (⟨g, event, m'⟩ : Journey)) missing, ih]
  | case3 visited id rest node found old ih =>
    rw [course_of_visited (j := (⟨g, event, m'⟩ : Journey)) found _ old, ih]
  | case4 visited id rest node found new ih =>
    rw [course_of_new (j := (⟨g, event, m'⟩ : Journey)) found _ new, ih, hentry, honward]

end Journey

namespace WalkState

section
variable (j k : Journey) (Rel : WalkState → WalkState → Prop)
  (size : ∀ s t, Rel s t → s.truncated = t.truncated ∧ s.maxSteps = t.maxSteps ∧
    s.log.length = t.log.length)
  (cut : ∀ s t id, s.truncated = false → Rel s t → Rel (s.cut id) (t.cut id))

include size cut

/-- What two moves keep of two states when there is room for them, they keep. Both states are cut if
one is, since their logs have the same length. -/
theorem perform_rel {m n : Move} (logs : m.logs = n.logs) (nodeId : m.nodeId = n.nodeId)
    (grown : ∀ s t, s.truncated = false → Rel s t → Rel (s.grown j [m]) (t.grown k [n]))
    {s t : WalkState} (h : Rel s t) : Rel (s.perform j m) (t.perform k n) := by
  obtain ⟨htruncated, hmax, hlength⟩ := size s t h
  cases hs : s.truncated with
  | true =>
    rw [perform_of_truncated j hs, perform_of_truncated k (htruncated ▸ hs)]
    exact h
  | false =>
    have ht : t.truncated = false := htruncated ▸ hs
    rcases perform_cases j hs m with ⟨hfull, hlogs, hcut⟩ | ⟨hroom, hgrown⟩
    · rcases perform_cases k ht n with ⟨-, -, hcut'⟩ | ⟨hroom', -⟩
      · rw [hcut, hcut', nodeId]
        exact cut s t n.nodeId hs h
      · rcases hroom' with hroom' | hlogs'
        · omega
        · cases (logs.symm.trans hlogs).symm.trans hlogs'
    · rcases perform_cases k ht n with ⟨hfull', hlogs', -⟩ | ⟨-, hgrown'⟩
      · rcases hroom with hroom | hlogs
        · omega
        · cases (logs.symm.trans hlogs).symm.trans hlogs'
      · rw [hgrown, hgrown']
        exact grown s t hs h

/-- What single moves keep of two states, whole walks keep. -/
theorem performAll_rel₂ {P : Move → Move → Prop}
    (same : ∀ m n, P m n → m.logs = n.logs ∧ m.nodeId = n.nodeId)
    (grown : ∀ m n, P m n → ∀ s t, s.truncated = false → Rel s t →
      Rel (s.grown j [m]) (t.grown k [n]))
    {moves moves' : List Move} (paired : List.Forall₂ P moves moves') {s t : WalkState}
    (h : Rel s t) : Rel (s.performAll j moves) (t.performAll k moves') := by
  induction paired generalizing s t with
  | nil => exact h
  | @cons m n _ _ hmn _ ih =>
    rw [performAll_cons, performAll_cons]
    obtain ⟨hlogs, hnode⟩ := same m n hmn
    exact ih (perform_rel j k Rel size cut hlogs hnode (grown m n hmn) h)

end

/-- What the moves of a list keep of two states, the list keeps. -/
theorem performAll_rel (j k : Journey) (moves : List Move) (Rel : WalkState → WalkState → Prop)
    (size : ∀ s t, Rel s t → s.truncated = t.truncated ∧ s.maxSteps = t.maxSteps ∧
      s.log.length = t.log.length)
    (cut : ∀ s t id, s.truncated = false → Rel s t → Rel (s.cut id) (t.cut id))
    (grown : ∀ m ∈ moves, ∀ s t, s.truncated = false → Rel s t →
      Rel (s.grown j [m]) (t.grown k [m]))
    {s t : WalkState} (h : Rel s t) : Rel (s.performAll j moves) (t.performAll k moves) := by
  refine performAll_rel₂ j k Rel size cut (P := fun m n => m ∈ moves ∧ m = n) ?_ ?_ ?_ h
  · rintro m _ ⟨-, rfl⟩
    exact ⟨rfl, rfl⟩
  · rintro m _ ⟨hm, rfl⟩
    exact grown m hm
  · exact List.forall₂_same.2 fun m hm => ⟨hm, rfl⟩

/-- A live state that suspends at waits, and a dry state that has come as far. -/
structure Alike (s t : WalkState) : Prop where
  log : List.Forall₂ Step.Foretold s.log t.log
  visited : ∀ id, id ∈ s.visited ↔ id ∈ t.visited
  truncated : s.truncated = t.truncated
  maxSteps : s.maxSteps = t.maxSteps
  points : s.pending = t.deferred
  suspends : s.suspendWaits = true
  nothing : s.deferred = []

namespace Alike

variable {s t : WalkState}

theorem cut (h : Alike s t) (id : String) : Alike (s.cut id) (t.cut id) where
  log := List.rel_append h.log
    (.cons (Step.foretold_of_same .skipped (by decide) rfl rfl rfl rfl) .nil)
  visited := h.visited
  truncated := rfl
  maxSteps := h.maxSteps
  points := rfl
  suspends := h.suspends
  nothing := rfl

/-- A move logs steps that tell the same. Waits do so when they begin at the same time. -/
theorem foretold_step? (g : Graph) (event : Event) {m : Move} (fits : m.Fits g)
    (timely : m.waits = true → s.now = t.now) : List.Forall₂ Step.Foretold
      ((m.step? ⟨g, event, .live⟩ s).toList) ((m.step? ⟨g, event, .dryRun⟩ t).toList) := by
  cases m with
  | visit id => exact .nil
  | note id node action detail =>
    have hother : action ≠ .enqueued ∧ action ≠ .executed := by
      obtain ⟨-, rfl | rfl | rfl⟩ := fits <;> decide
    exact .cons (Step.foretold_of_same action hother rfl rfl rfl rfl) .nil
  | enroll id node e => exact .cons ⟨rfl, rfl, .inl ⟨rfl, rfl⟩⟩ .nil
  | wait id node w =>
    have hnow : s.now = t.now := timely rfl
    simp only [Move.step?, hnow]
    cases w.until? t.now with
    | none => exact .cons (Step.foretold_of_same .skipped (by decide) rfl rfl rfl rfl) .nil
    | some resumeAt => exact .cons (Step.foretold_of_same .waited (by decide) rfl rfl rfl rfl) .nil

theorem grown (h : Alike s t) (g : Graph) (event : Event) {m : Move} (fits : m.Fits g)
    (timely : m.waits = true → s.now = t.now) :
    Alike (s.grown ⟨g, event, .live⟩ [m]) (t.grown ⟨g, event, .dryRun⟩ [m]) := by
  have hsuspends : s.suspends .live = true := by simp [WalkState.suspends, h.suspends, Mode.isLive]
  have hpasses : t.suspends .dryRun = false := rfl
  have hpoints : m.points s.now = m.points t.now := by
    cases m with
    | wait id node w => rw [timely rfl]
    | _ => rfl
  have hone : ∀ (j : Journey) (u : WalkState),
      [m].filterMap (Move.step? j u) = (m.step? j u).toList := by
    intro j u
    cases hstep : m.step? j u with
    | none => rw [List.filterMap_cons_none hstep]; rfl
    | some step => rw [List.filterMap_cons_some hstep]; rfl
  refine ⟨?_, ?_, h.truncated, h.maxSteps, ?_, h.suspends, ?_⟩
  · simp only [WalkState.grown, hone]
    exact List.rel_append h.log (foretold_step? g event fits timely)
  · intro id
    simp only [WalkState.grown, List.mem_append, h.visited]
  · simp [WalkState.grown, hsuspends, hpasses, hpoints, h.points]
  · simp [WalkState.grown, hsuspends, h.nothing]

end Alike

/-- Walks keep states alike. Where they come to waits they must have begun at the same time. -/
theorem alike_walk (g : Graph) (event : Event) (agenda : List String) {s t : WalkState}
    (h : Alike s t) (timely : s.now = t.now ∨
      ∀ m ∈ (⟨g, event, .live⟩ : Journey).course agenda s.visited, m.waits = false) :
    Alike (s.walk ⟨g, event, .live⟩ agenda) (t.walk ⟨g, event, .dryRun⟩ agenda) := by
  have hcourse : (⟨g, event, .dryRun⟩ : Journey).course agenda t.visited =
      (⟨g, event, .live⟩ : Journey).course agenda s.visited := by
    rw [Journey.course_mode g event .dryRun .live]
    exact Journey.course_congr _ agenda fun id => (h.visited id).symm
  rw [walk_eq, walk_eq, hcourse]
  have hrel := performAll_rel ⟨g, event, .live⟩ ⟨g, event, .dryRun⟩
    ((⟨g, event, .live⟩ : Journey).course agenda s.visited)
    (fun u v => Alike u v ∧ u.now = s.now ∧ v.now = t.now) ?_ ?_ ?_ ⟨h, rfl, rfl⟩
  · exact hrel.1
  · exact fun u v huv => ⟨huv.1.truncated, huv.1.maxSteps, huv.1.log.length_eq⟩
  · exact fun u v id _ huv => ⟨huv.1.cut id, huv.2⟩
  · intro m hm u v _ huv
    refine ⟨huv.1.grown g event (Journey.fits_of_mem_course _ _ _ m hm) fun hwaits => ?_, huv.2⟩
    rw [huv.2.1, huv.2.2]
    rcases timely with hnow | hnone
    · exact hnow
    · cases hwaits.symm.trans (hnone m hm)

end WalkState

end Dunning
