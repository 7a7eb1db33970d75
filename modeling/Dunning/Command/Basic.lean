import Dunning.Run.Basic

/-!
# Commands

What the program can be asked to do, and how it ends.
-/
namespace Dunning

inductive Command where
  /-- Check a flow. -/
  | validate (flowFile : String)
  /-- Execute a flow once, without keeping the run. -/
  | run (flowFile : String) (mode : Mode)
  /-- Save a flow. -/
  | importFlow (flowFile : String)
  /-- Execute the saved flows for events. -/
  | dispatch (mode : Mode)
  /-- Continue a waiting run. -/
  | resume (runId : String)
  /-- List the runs of a flow. -/
  | runs (flowId : String)
  deriving DecidableEq, Repr

/-- A command with its settings, all of which may be missing. -/
structure Invocation where
  dataDir : Option String
  config : Option String
  command : Option Command
  deriving DecidableEq, Repr

namespace Command

/-- The flow file that a command reads. -/
def flowFile? : Command → Option String
  | validate file => some file
  | run file _ => some file
  | importFlow file => some file
  | _ => none

/-- Whether a command reads standard input. -/
def readsInput : Command → Bool
  | run .. => true
  | dispatch _ => true
  | _ => false

end Command

/-- The flow file that is read. -/
def Invocation.flowFile? (i : Invocation) : Option String := i.command.bind Command.flowFile?

inductive Ending where
  | success
  | failure (message : String)
  /-- The command line makes no sense. -/
  | misuse
  deriving DecidableEq, Repr

def Ending.code : Ending → Nat
  | success => 0
  | failure _ => 1
  | misuse => 2

end Dunning
