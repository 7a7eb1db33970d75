import Dunning.Command.Arguments
import Dunning.Command.Path
import Dunning.Command.Perform
import Dunning.Store.Archive
import Std.Time.DateTime.Timestamp

/-!
# The program

Gathers what a command needs, performs it, and keeps its records.
-/
namespace Dunning.Program

def readText? (file : String) : IO (Option String) := do
  try return some (← IO.FS.readFile file)
  catch _ => return none

def readInput : IO String := do
  let stdin ← IO.getStdin
  if ← stdin.isTty then return "" else stdin.readToEnd

/-- The current time. -/
def readClock : IO Instant := do
  let now := (← Std.Time.Timestamp.now).toNanosecondsSinceUnixEpoch.val
  return (Instant.ofSeconds? (now / 1000000000) (now % 1000000000).toNat).getD .epoch

/-- A text that no other use of the program will find. -/
def readSeed : IO String := do
  let bytes ← IO.getRandomBytes 16
  return String.ofList (bytes.toList.flatMap fun b =>
    [Json.hexDigit (b.toNat / 16), Json.hexDigit (b.toNat % 16)])

/-- Make a directory, unless it is there: only a directory has a way on. -/
def makeDirectory (dir : String) : IO Unit := do
  try IO.FS.createDir dir
  catch _ => discard (IO.FS.realPath (dir ++ "/."))

/-- Open the records of a data directory, which is made if it is missing: the file in which they
are kept, if they are, and the records. -/
def openRecords (dataDir : String) :
    IO (Except RecordsFault (Option String × Records TableStore)) := do
  try
    (Path.stages dataDir).forM makeDirectory
  catch _ => return .error .noDirectory
  match Address.target? (Address.ofDirectory dataDir) with
  | none => return .error .unreadable
  | some .transient => return .ok (none, .empty)
  | some (.file file) =>
      let bytes ← try IO.FS.readBinFile file catch _ => pure .empty
      let found :=
        if bytes.size ≤ 1 then some Records.empty
        else (String.fromUTF8? bytes).bind fun text =>
          (Archive.codec.parse text).toOption.bind Archive.toRecords?
      return match found with
        | none => .error .unreadable
        | some records => .ok (some file, records)

/-- Write records to their file. -/
def keep (file : String) (records : Records TableStore) : IO Unit :=
  IO.FS.writeFile file (Archive.codec.text (.ofRecords records))

/-- Use the records of a data directory. They must be writable before they are used. -/
def onRecords (dataDir : String) (use : Records TableStore → Report × Records TableStore) :
    IO Report := do
  match ← openRecords dataDir with
  | .error fault => return .failure (fault.message dataDir)
  | .ok (file, records) =>
      try
        file.forM fun f => keep f records
      catch _ => return .failure (RecordsFault.unreadable.message dataDir)
      let (report, records) := use records
      file.forM fun f => keep f records
      return report

def perform (i : Invocation) : IO Report := do
  let home := (← IO.getEnv "HOME").getD "."
  let config ← match i.config with
    | some file => readText? file
    | none => pure none
  let flow ← match i.flowFile? with
    | some file => readText? file
    | none => pure none
  let stdin ← if i.command.any Command.readsInput then readInput else pure ""
  let seed ← readSeed
  match i.errand ⟨config, flow, stdin, ← readClock, fun n => seed ++ "-" ++ toString n⟩ with
  | .done report => return report
  | .withRecords use => onRecords (i.dataDir.getD (home ++ "/.ledgerflow")) use

/-- Perform a command line and tell its exit code. -/
def run (args : List String) : IO UInt32 := do
  let report ← match Invocation.parse args with
    | some invocation => perform invocation
    | none => pure ⟨"", "usage: ledgerflow [--data-dir DIR] [--config FILE] [COMMAND]\n", .misuse⟩
  IO.print report.stdout
  IO.eprint report.stderr
  if let .failure message := report.ending then IO.eprintln ("Error: " ++ message)
  return report.ending.code.toUInt32

end Dunning.Program

def main (args : List String) : IO UInt32 := Dunning.Program.run args
