import Dunning.Engine.HandOff

/-!
# Resuming runs

A waiting run is read, continued behind every wait that is due, and written back
unless another caller has written it in between. Nothing is handed off before
the write. The four stages stand apart, since those of several callers may
interleave.
-/
namespace Dunning

/-- A waiting run as it was read, with its points divided: those that are due, the earliest first,
and those that are not. -/
structure Continuation where
  run : Run
  due : List ResumePoint
  later : List ResumePoint
  deriving DecidableEq

/-- How a run can be continued at a time: not at all, not yet, or behind the points that are
due. -/
def Run.continuation (run : Run) (now : Instant) : Except EngineProblem (Option Continuation) :=
  if run.status ≠ .waiting then .error (.runNotWaiting run.id run.status)
  else
    let due := run.pending.filter fun p => p.resumeAt.le now
    if due.isEmpty then .ok none
    else .ok (some
      { run := run
        due := due.mergeSort fun p q => p.resumeAt.le q.resumeAt
        later := run.pending.filter fun p => !p.resumeAt.le now })

namespace Continuation

/-- The state from which a run goes on. -/
def start (c : Continuation) (e : Engine) (now clock : Instant) : WalkState :=
  let s := WalkState.ofLog c.run.id c.run.log e.settings.maxSteps e.hasScheduler clock
  { s.withNow now with pending := c.later }

/-- Go on behind every due point. Without its flow, a run is closed. -/
def walk (c : Continuation) (e : Engine) (flow : Option Flow) (now clock : Instant) : WalkState :=
  let s := c.start e now clock
  match flow with
  | some flow =>
      let journey : Journey := ⟨.ofFlow flow, c.run.triggerEvent, .live⟩
      (c.due.foldl (fun s p => s.walkDownstream journey p.nodeId) s).drain journey
  | none =>
      let s := { s with pending := [] }
      s.record (s.step c.run.flowId none .skipped missingFlowText)

/-- The continued run. -/
def draft (c : Continuation) (e : Engine) (flow : Option Flow) (now clock : Instant) : Draft :=
  let s := c.walk e flow now clock
  let status := s.runStatus .live
  { run := { c.run with
      status := status
      completedAt := status.completion clock
      log := s.log
      pending := s.pending }
    requests := s.dispatches
    wakeups := s.pending.drop c.later.length }

end Continuation

/-- A write of another caller that comes just before a resumption is written. -/
structure Rival where
  run : Run
  priorSteps : Nat

namespace Engine

/-- The store once the rival, if there is one, has written. -/
def afterRival [Store σ] (rival : Option Rival) (store : σ) : Except StoreProblem σ :=
  match rival with
  | none => .ok store
  | some other => Store.updateRun other.run other.priorSteps store

/-- Continue a waiting run behind every point that is due at `now`. -/
def resumeDue [Store σ] (e : Engine) (w : Surroundings) (clock : Instant) (runId : String)
    (now : Instant) (rival : Option Rival) (r : Records σ) : Outcome σ Run :=
  match w.findRun runId r.store with
  | .error problem => r.failed problem
  | .ok run =>
      match run.continuation now with
      | .error problem => r.settled (.error problem)
      | .ok none => r.settled (.ok run)
      | .ok (some c) =>
          match w.findFlow run.orgId run.flowId r.store with
          | .error problem => r.failed problem
          | .ok flow =>
              let d := c.draft e flow now clock
              match afterRival rival r.store with
              | .error problem => r.failed problem
              | .ok met =>
                  match w.update d.run run.log.length met with
                  | .error problem => Records.failed { r with store := met } problem
                  | .ok store =>
                      ⟨.ok d.run, { r with store := store }, e.handOff w
                        (.runResumed d.run.id d.run.flowId d.run.status d.run.log.length) d⟩

/-- Continue a waiting run behind every point that is due at the current time. -/
def resume [Store σ] (e : Engine) (w : Surroundings) (clock : Instant) (runId : String)
    (r : Records σ) : Outcome σ Run :=
  e.resumeDue w clock runId clock none r

end Engine

end Dunning
