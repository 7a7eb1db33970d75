import Dunning.Command.Address
import Dunning.Command.Basic
import Dunning.Engine.Execute
import Dunning.Engine.Resume
import Dunning.Flow.Check
import Dunning.Store.Memory
import Dunning.Store.Table
import Dunning.Text.Lines

/-!
# Performing commands

A command sees its files and its input, and comes to a report at once or with
the use of the records. The first thing that fails in the order of use ends it.
-/
namespace Dunning

/-- Why the records of a data directory cannot be used. -/
inductive RecordsFault where
  | noDirectory
  | unreadable
  deriving DecidableEq, Repr

def RecordsFault.message (dataDir : String) : RecordsFault → String
  | noDirectory => "failed to create data directory: " ++ dataDir
  | unreadable => "failed to open database at " ++ Address.ofDirectory dataDir

/-- What a command finds. Files that cannot be read are missing. -/
structure Inputs where
  config : Option String
  flow : Option String
  stdin : String
  clock : Instant
  runId : Nat → String

/-- What a command prints, and how it ends. -/
structure Report where
  stdout : String
  stderr : String
  ending : Ending
  deriving DecidableEq, Repr

namespace Report

/-- A success that prints a text. -/
def print (text : String) : Report := ⟨text, "", .success⟩

def failure (message : String) : Report := ⟨"", "", .failure message⟩

/-- Print a document. -/
def document (j : Json) : Report := print (j.indentedText ++ "\n")

end Report

/-- What is left to do once the files are read. -/
inductive Errand where
  | done (report : Report)
  | withRecords (use : Records TableStore → Report × Records TableStore)

namespace Inputs

/-- The settings: those of the configuration file, if one is named. -/
def settings (x : Inputs) (configFile : Option String) : Except String Settings :=
  match configFile, x.config with
  | none, _ => .ok .standard
  | some file, none => .error ("failed to read config file: " ++ file)
  | some file, some text =>
      (Settings.codec.parse text).mapError fun _ => "failed to parse config file: " ++ file

def readFlow (x : Inputs) (file : String) : Except String Flow :=
  match x.flow with
  | none => .error ("failed to read flow file: " ++ file)
  | some text => (Flow.codec.parse text).mapError fun _ => "failed to parse flow file: " ++ file

/-- The event on standard input. Without one, an event of the organization that has no type. -/
def readEvent (x : Inputs) (orgId : String) : Except String Event :=
  if Text.allBlank x.stdin then .ok (.bare orgId "")
  else (Event.parse x.stdin).mapError fun _ => "failed to parse event JSON from stdin"

/-- The events on lines, which are counted from `n`. Blank lines are passed over. -/
def eventsOfLines (n : Nat) : List (List Char) → Except String (List Event)
  | [] => .ok []
  | line :: rest =>
      if line.all Text.isBlank then eventsOfLines (n + 1) rest
      else do
        let event ← (Event.parse (String.ofList line)).mapError fun _ =>
          "invalid event on line " ++ toString n
        let events ← eventsOfLines (n + 1) rest
        return event :: events

def readEvents (x : Inputs) : Except String (List Event) := eventsOfLines 1 (Text.lines x.stdin.toList)

end Inputs

namespace Command

/-- Tell the findings of a flow. -/
def performValidate (x : Inputs) (file : String) : Except String Report := do
  let flow ← x.readFlow file
  let findings := flow.check
  if findings.isEmpty then return .print (flow.name ++ ": ok\n")
  else return {
    stdout := String.join (findings.map fun f => f.message ++ "\n")
    stderr := ""
    ending := .failure (toString findings.length ++ " problem(s) found in " ++ flow.name) }

/-- Execute a flow that is stored for this once, without a scheduler. -/
def performRun (x : Inputs) (settings : Settings) (file : String) (mode : Mode) :
    Except String Report := do
  let flow ← x.readFlow file
  let event ← x.readEvent flow.orgId
  let engine : Engine := ⟨settings, false, x.runId⟩
  let records : Records MemoryStore := ⟨MemoryStore.empty.saveFlow flow, 0⟩
  let report := match (engine.execute .calm x.clock flow.orgId flow.id mode event records).answer with
    | .ok log => Report.document ((Codec.list Step.codec).write log)
    | .error _ => .failure "flow execution failed"
  return { report with stderr := "Running flow: " ++ flow.name ++ " (" ++ mode.name ++ ")\n" }

def performImport (x : Inputs) (file : String) : Except String Errand := do
  let flow ← x.readFlow file
  return .withRecords fun records =>
    (.print (flow.id ++ "\n"), { records with store := records.store.saveFlow flow })

/-- What a dispatch prints: the ids of new runs, and all else that was noticed. -/
def dispatchReport (deeds : List Deed) : Report :=
  let notices := deeds.filterMap fun deed => match deed.act with
    | .notified notice => some notice
    | _ => none
  { stdout := String.join (notices.map fun
      | .runRecorded runId .. => runId ++ "\n"
      | _ => "")
    stderr := String.join (notices.map fun
      | .runRecorded .. => ""
      | notice => Notice.codec.text notice ++ "\n")
    ending := .success }

/-- Execute the saved flows for every event of the input, and tell the runs. -/
def performDispatch (x : Inputs) (settings : Settings) (mode : Mode)
    (records : Records TableStore) : Report × Records TableStore :=
  match x.readEvents with
  | .error message => (.failure message, records)
  | .ok events =>
      let engine : Engine := ⟨settings, true, x.runId⟩
      let o := engine.serve .calm x.clock mode events records
      (dispatchReport o.deeds, o.records)

def performResume (x : Inputs) (settings : Settings) (runId : String)
    (records : Records TableStore) : Report × Records TableStore :=
  let engine : Engine := ⟨settings, true, x.runId⟩
  let o := engine.resume .calm x.clock runId records
  match o.answer with
  | .ok resumed => (.document (Run.codec.write resumed), o.records)
  | .error _ => (.failure ("failed to resume run " ++ runId), o.records)

def performRuns (flowId : String) (records : Records TableStore) : Report × Records TableStore :=
  match records.store.listRuns flowId with
  | .ok found => (.document ((Codec.list Run.codec).write found), records)
  | .error _ => (.failure "failed to list runs", records)

def errand (x : Inputs) (settings : Settings) : Command → Except String Errand
  | validate file => (performValidate x file).map .done
  | run file mode => (performRun x settings file mode).map .done
  | importFlow file => performImport x file
  | dispatch mode => .ok (.withRecords (performDispatch x settings mode))
  | resume runId => .ok (.withRecords (performResume x settings runId))
  | runs flowId => .ok (.withRecords (performRuns flowId))

end Command

/-- What a command line asks for. The settings come first, even if nothing is asked. -/
def Invocation.errand (i : Invocation) (x : Inputs) : Errand :=
  let result : Except String Errand := do
    let settings ← x.settings i.config
    match i.command with
    | none => return .done (.print "ledgerflow - use --help to see available commands\n")
    | some command => command.errand x settings
  match result with
  | .ok errand => errand
  | .error message => .done (.failure message)

end Dunning
