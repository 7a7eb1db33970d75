import Dunning.Walk.State
import Dunning.Flow.Graph
import Dunning.Condition

/-!
# Entering a node

What one node does to a walk, and where the walk goes next.
-/
namespace Dunning

/-- What stays the same during a walk. -/
structure Journey where
  graph : Graph
  event : Event
  mode : Mode
  deriving Inhabited

/-- The instant at which a wait begun at `now` is over; `none` past the last instant. -/
def Wait.until? (w : Wait) (now : Instant) : Option Instant := now.addHours w.totalHours

namespace WalkState

/-- A step of a node. -/
def nodeStep (s : WalkState) (id : String) (node : Node) (action : StepAction) (detail : String) :
    Step :=
  s.step id (some node.kind) action detail

/-- Try the branches of a switch in order. The first that matches decides the way. -/
def tryBranches (j : Journey) (id : String) (node : Node) :
    List Branch → WalkState → WalkState × List String
  | [], s => (s, [])
  | b :: rest, s =>
      let reason := b.condition.describe j.event
      if b.condition.holds j.event then
        (s.record (s.nodeStep id node .matched ("Branch '" ++ b.name ++ "' matched: " ++ reason)),
          (j.graph.branchEdge id b.id).toList.map Edge.target)
      else
        tryBranches j id node rest
          (s.record (s.nodeStep id node .skipped ("Branch '" ++ b.name ++ "' did not match: " ++ reason)))

/-- Ask for an enrollment. A dry run asks for nothing. -/
def enroll (j : Journey) (id : String) (node : Node) (e : Enrollment) (s : WalkState) : WalkState :=
  match j.mode with
  | .live =>
      let s := s.record (s.nodeStep id node .enqueued
        ("Enrollment in sequence '" ++ e.sequence ++ "' enqueued"))
      if s.truncated then s
      else { s with dispatches := s.dispatches ++
        [⟨s.runId, j.event.orgId, id, j.event.contactId, j.event.invoiceId, e.sequence⟩] }
  | .dryRun =>
      s.record (s.nodeStep id node .executed
        ("[Dry run] Would enroll contact in sequence '" ++ e.sequence ++ "'; nothing dispatched"))

/-- Whether waits suspend the walk. -/
def suspends (s : WalkState) (mode : Mode) : Bool := mode.isLive && s.suspendWaits

def waitDetail (s : WalkState) (mode : Mode) (w : Wait) (resumeAt : Instant) : String :=
  if s.suspends mode then
    "Waiting " ++ w.describe ++ "; resumes at " ++ Timestamp.render "+00:00" resumeAt
  else match mode with
    | .live => "Waiting " ++ w.describe ++ "; continuing without suspension"
    | .dryRun => "[Dry run] Would wait " ++ w.describe

/-- Wait: the walk does not go on here, but leaves a point from which it can be continued. -/
def wait (j : Journey) (id : String) (node : Node) (w : Wait) (s : WalkState) : WalkState :=
  match w.until? s.now with
  | none => s.record (s.nodeStep id node .skipped
      ("Wait of " ++ w.describe ++ " is out of range; path stopped"))
  | some resumeAt =>
      let next := s.record (s.nodeStep id node .waited (s.waitDetail j.mode w resumeAt))
      if next.truncated then next
      else if s.suspends j.mode then { next with pending := next.pending ++ [⟨id, resumeAt⟩] }
      else { next with deferred := next.deferred ++ [⟨id, resumeAt⟩] }

/-- Enter a node: the state after it, and the ids to walk next. -/
def enter (j : Journey) (id : String) (node : Node) (s : WalkState) : WalkState × List String :=
  let onward := (j.graph.outgoing id).map Edge.target
  match node.body with
  | .trigger t =>
      (s.record (s.nodeStep id node .evaluated ("Trigger matched: " ++ t.type.name)), onward)
  | .switch branches =>
      tryBranches j id node branches (s.record (s.nodeStep id node .evaluated
        ("Evaluating " ++ toString branches.length ++ " branch(es)")))
  | .enroll e => (s.enroll j id node e, onward)
  | .wait w => (s.wait j id node w, [])

@[simp] theorem tryBranches_visited (j : Journey) (id : String) (node : Node) (branches : List Branch)
    (s : WalkState) : (tryBranches j id node branches s).1.visited = s.visited := by
  induction branches generalizing s with
  | nil => rfl
  | cons b rest ih =>
    simp only [tryBranches]
    split
    · simp
    · rw [ih, record_visited]

theorem tryBranches_deferred_le (j : Journey) (id : String) (node : Node) (branches : List Branch)
    (s : WalkState) : (tryBranches j id node branches s).1.deferred.length ≤ s.deferred.length := by
  induction branches generalizing s with
  | nil => exact Nat.le_refl _
  | cons b rest ih =>
    simp only [tryBranches]
    split
    · exact record_deferred_le _ _
    · exact Nat.le_trans (ih _) (record_deferred_le _ _)

@[simp] theorem enroll_visited (j : Journey) (id : String) (node : Node) (e : Enrollment)
    (s : WalkState) : (s.enroll j id node e).visited = s.visited := by
  simp only [enroll]
  split
  · split <;> simp
  · simp

theorem enroll_deferred_le (j : Journey) (id : String) (node : Node) (e : Enrollment)
    (s : WalkState) : (s.enroll j id node e).deferred.length ≤ s.deferred.length := by
  simp only [enroll]
  split
  · split <;> exact record_deferred_le _ _
  · exact record_deferred_le _ _

@[simp] theorem wait_visited (j : Journey) (id : String) (node : Node) (w : Wait) (s : WalkState) :
    (s.wait j id node w).visited = s.visited := by
  simp only [wait]
  split
  · simp
  · split
    · simp
    · split <;> simp

theorem wait_deferred_le (j : Journey) (id : String) (node : Node) (w : Wait) (s : WalkState) :
    (s.wait j id node w).deferred.length ≤ s.deferred.length + 1 := by
  simp only [wait]
  split
  · exact Nat.le_succ_of_le (record_deferred_le _ _)
  · split
    · exact Nat.le_succ_of_le (record_deferred_le _ _)
    · split
      · exact Nat.le_succ_of_le (record_deferred_le _ _)
      · simp only [List.length_append, List.length_cons, List.length_nil]
        exact Nat.add_le_add_right (record_deferred_le _ _) _

/-- Entering a node visits nothing else. -/
@[simp] theorem enter_visited (j : Journey) (id : String) (node : Node) (s : WalkState) :
    (s.enter j id node).1.visited = s.visited := by
  simp only [enter]
  split <;> simp

/-- Entering a node defers at most one wait. -/
theorem enter_deferred_le (j : Journey) (id : String) (node : Node) (s : WalkState) :
    (s.enter j id node).1.deferred.length ≤ s.deferred.length + 1 := by
  simp only [enter]
  split
  · exact Nat.le_succ_of_le (record_deferred_le _ _)
  · exact Nat.le_succ_of_le (Nat.le_trans (tryBranches_deferred_le ..) (record_deferred_le _ _))
  · exact Nat.le_succ_of_le (enroll_deferred_le ..)
  · exact wait_deferred_le ..

end WalkState

end Dunning
