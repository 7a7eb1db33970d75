import Dunning.Proofs.Walk.Drain

/-!
# Calls on a walk

From outside, a state is walked by three calls: from a node, from what follows a node, and
from the deferred waits. What walks keep of one state, or of two states side by side, a
sequence of calls keeps.
-/
namespace Dunning

/-- A call that moves a walk on. -/
inductive WalkCall where
  | walk (id : String)
  | downstream (id : String)
  | drain
  deriving DecidableEq, Inhabited

namespace WalkState

def call (j : Journey) (s : WalkState) : WalkCall → WalkState
  | .walk id => s.walk j [id]
  | .downstream id => s.walkDownstream j id
  | .drain => s.drain j

def callAll (j : Journey) (calls : List WalkCall) (s : WalkState) : WalkState :=
  calls.foldl (call j) s

@[simp] theorem callAll_cons (j : Journey) (c : WalkCall) (calls : List WalkCall) (s : WalkState) :
    s.callAll j (c :: calls) = (s.call j c).callAll j calls := rfl

/-- No call moves a truncated state. -/
theorem call_of_truncated (j : Journey) {s : WalkState} (h : s.truncated = true) (c : WalkCall) :
    s.call j c = s := by
  cases c with
  | walk id => exact walk_of_truncated j [id] h
  | downstream id => exact walk_of_truncated j _ h
  | drain => exact drain_of_truncated j h

theorem callAll_of_truncated (j : Journey) {s : WalkState} (h : s.truncated = true)
    (calls : List WalkCall) : s.callAll j calls = s := by
  induction calls with
  | nil => rfl
  | cons c rest ih => rw [callAll_cons, call_of_truncated j h, ih]

/-- What walks keep, calls keep. -/
theorem Carried.callAll {j : Journey} {P : WalkState → Prop} (h : Carried j P)
    (calls : List WalkCall) {s : WalkState} (hs : P s) : P (s.callAll j calls) := by
  induction calls generalizing s with
  | nil => exact hs
  | cons c rest ih =>
    refine ih ?_
    cases c with
    | walk id => exact h.walk [id] s hs
    | downstream id => exact h.walkDownstream id hs
    | drain => exact h.drain hs

section
variable {j : Journey} {P : WalkState → Prop} {s : WalkState}

/-- What walks from one base time keep, going on behind points keeps. -/
theorem foldl_of_walk (walk : ∀ agenda s, P s → P (s.walk j agenda)) (points : List ResumePoint)
    (hs : P s) : P (points.foldl (fun s p => s.walkDownstream j p.nodeId) s) := by
  induction points generalizing s with
  | nil => exact hs
  | cons p rest ih => exact ih (walk _ s hs)

/-- What walks keep whatever is deferred and whatever the base time, a drain keeps. -/
theorem drain_of_walk (walk : ∀ agenda s, P s → P (s.walk j agenda))
    (retime : ∀ deferred now s, P s → P { s with deferred := deferred, now := now }) (hs : P s) :
    P (s.drain j) := by
  fun_induction WalkState.drain j s with
  | case1 s cut => exact hs
  | case2 s going done => exact hs
  | case3 s going point others found ih => exact ih (walk _ _ (retime _ _ s hs))

end

/-- A relation between two states that is kept when both walk along one agenda. The states defer the
same, until the first one is truncated; the second one may then go on by itself. -/
structure Parallel (j k : Journey) (R : WalkState → WalkState → Prop) : Prop where
  graph : j.graph = k.graph
  walk : ∀ agenda s t, R s t → R (s.walk j agenda) (t.walk k agenda)
  retime : ∀ deferred now s t, s.truncated = false → R s t →
    R { s with deferred := deferred, now := now } { t with deferred := deferred, now := now }
  level : ∀ s t, s.truncated = false → R s t → t.truncated = false ∧ t.deferred = s.deferred
  behind : ∀ s t, s.truncated = true → R s t → R s (t.drain k)

namespace Parallel

variable {j k : Journey} {R : WalkState → WalkState → Prop} {s t : WalkState}

theorem walkDownstream (h : Parallel j k R) (id : String) (hs : R s t) :
    R (s.walkDownstream j id) (t.walkDownstream k id) := by
  unfold WalkState.walkDownstream
  rw [h.graph]
  exact h.walk _ s t hs

/-- Both states go on behind the same wait, since they defer the same. -/
theorem drain (h : Parallel j k R) (hs : R s t) : R (s.drain j) (t.drain k) := by
  fun_induction WalkState.drain j s generalizing t with
  | case1 s cut => exact h.behind s t cut hs
  | case2 s going done =>
    obtain ⟨-, hdeferred⟩ := h.level s t (Bool.eq_false_iff.2 going) hs
    rw [drain_of_deferred_nil k (hdeferred.trans (takeEarliest_eq_none done))]
    exact hs
  | case3 s going point others found ih =>
    have hopen : s.truncated = false := Bool.eq_false_iff.2 going
    obtain ⟨hopen', hdeferred⟩ := h.level s t hopen hs
    rw [← hdeferred] at found
    rw [drain_of_earliest k hopen' found]
    exact ih (h.walkDownstream point.nodeId (h.retime others point.resumeAt s t hopen hs))

theorem callAll (h : Parallel j k R) (calls : List WalkCall) (hs : R s t) :
    R (s.callAll j calls) (t.callAll k calls) := by
  induction calls generalizing s t with
  | nil => exact hs
  | cons c rest ih =>
    refine ih ?_
    cases c with
    | walk id => exact h.walk [id] s t hs
    | downstream id => exact h.walkDownstream id hs
    | drain => exact h.drain hs

end Parallel

end WalkState

end Dunning
