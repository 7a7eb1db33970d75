import Dunning.Event

/-!
# Runs

A run is the record of one execution of a flow: a log of steps, and the points
at which it waits to be resumed. It waits as long as there are such points.
-/
namespace Dunning

/-- A dry run walks like a live one, but only logs what would happen. -/
inductive Mode where
  | live
  | dryRun
  deriving DecidableEq, Repr, Inhabited

/-- What happened to a node. -/
inductive StepAction where
  | evaluated
  | matched
  | skipped
  | executed
  | enqueued
  | waited
  deriving DecidableEq, Repr, Inhabited

/-- One entry of a log. Steps that do not belong to a node have no kind. -/
structure Step where
  nodeId : String
  nodeKind : Option NodeKind
  action : StepAction
  detail : String
  timestamp : Instant
  deriving DecidableEq, Inhabited

inductive RunStatus where
  | completed
  | dryRun
  /-- Suspended at one or more waits. -/
  | waiting
  /-- Stopped at the step limit. -/
  | truncated
  deriving DecidableEq, Repr, Inhabited

/-- What started a run. -/
inductive RunSource where
  | manual
  | event
  deriving DecidableEq, Repr, Inhabited

/-- A suspended run continues behind the wait `nodeId` once `resumeAt` has passed. -/
structure ResumePoint where
  nodeId : String
  resumeAt : Instant
  deriving DecidableEq, Inhabited

structure Run where
  id : String
  flowId : String
  orgId : String
  triggeredBy : RunSource
  triggerEvent : Event
  status : RunStatus
  startedAt : Instant
  completedAt : Option Instant
  log : List Step
  pending : List ResumePoint
  deriving DecidableEq, Inhabited

namespace RunStatus

def name : RunStatus → String
  | completed => "COMPLETED"
  | dryRun => "DRY_RUN"
  | waiting => "WAITING"
  | truncated => "TRUNCATED"

def all : List RunStatus := [completed, dryRun, waiting, truncated]

def ofName? (name : String) : Option RunStatus := all.find? fun s => s.name = name

def isTerminal (s : RunStatus) : Bool := s != waiting

end RunStatus

namespace RunSource

def name : RunSource → String
  | manual => "manual"
  | event => "event"

def all : List RunSource := [manual, event]

def ofName? (name : String) : Option RunSource := all.find? fun s => s.name = name

end RunSource

namespace Mode

def name : Mode → String
  | live => "live"
  | dryRun => "dry_run"

def all : List Mode := [live, dryRun]

def isLive (m : Mode) : Bool := m == live

/-- The status of a run that neither waits nor was cut. -/
def completedStatus : Mode → RunStatus
  | live => .completed
  | dryRun => .dryRun

end Mode

namespace StepAction

def name : StepAction → String
  | evaluated => "evaluated"
  | matched => "matched"
  | skipped => "skipped"
  | executed => "executed"
  | enqueued => "enqueued"
  | waited => "waited"

def all : List StepAction := [evaluated, matched, skipped, executed, enqueued, waited]

end StepAction

end Dunning
