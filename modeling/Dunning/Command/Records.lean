import Dunning.Command.Address
import Dunning.Command.Arguments
import Dunning.Command.Perform
import Dunning.Command.Place

/-!
# Records in a place

Records are kept in a file of the data directory. Beside it may lie what an
unfinished change would have left, its journal and its log. Neither means
anything to records that are complete, but a directory under the name of one
stands in the way of every use.
-/
namespace Dunning

/-- The records in a file. A file of a single byte counts as empty. -/
def Content.store? : Content → Option TableStore
  | .directory => none
  | .text written => if written.utf8ByteSize ≤ 1 then some .empty else none
  | .records store => some store

namespace Place

/-- Find a path by its parts alone. A directory that is left again need not be there, but there is
no way on from a file, and none to a path of more than 511 bytes. -/
def locate (p : Place) (path : Path) : List String → Option Path
  | [] => some path
  | part :: rest =>
      let next := path.step part
      let isOpen := match p.content? path with
        | some .directory => true
        | none => true
        | some _ => false
      if path.length < next.length ∧ (!isOpen ∨ 511 < next.size) then none else p.locate next rest

/-- Take away what an unfinished change has left at a path, and tell whether nothing stands in the
way there. An empty file does not count. -/
def clear (p : Place) (path : Path) : Place × Bool :=
  match p.content? path with
  | none => (p, true)
  | some .directory => (p, false)
  | some (.text text) => (if text.isEmpty then p else p.remove path, true)
  | some (.records _) => (p.remove path, true)

/-- Open the records at a path. The file is made if it is missing, even if the records cannot be
used; its full path has at most 504 bytes, so that 512 are enough for the names beside it. -/
def recordsAt (p : Place) (path : Path) : Place × Option TableStore :=
  if 504 < path.size ∨ p.isDirectory path ∨ !p.isDirectory path.dropLast then (p, none)
  else
    let content := (p.content? path).getD (.text "")
    let journal := path.extend "-journal"
    let (p, journalGone) := (p.put path content).clear journal
    let (p, logGone) := p.clear (path.extend "-wal")
    match content.store? with
    | some store => if journalGone && logGone then (p.remove journal, some store) else (p, none)
    | none => (p, none)

/-- Open the records to which an address leads; with them comes the path at which they are kept, if
they are. -/
def openRecords (p : Place) (address : String) : Place × Option (Option Path × TableStore) :=
  match Address.target? address with
  | none => (p, none)
  | some .transient => (p, some (none, .empty))
  | some (.file file) =>
      match p.locate (p.start file) (Path.parts file) with
      | none => (p, none)
      | some path =>
          let (p, found) := p.recordsAt path
          (p, found.map fun store => (some path, store))

/-- Use the records of a data directory. -/
def onRecords (p : Place) (dataDir : String)
    (use : Records TableStore → Report × Records TableStore) : Report × Place :=
  match p.makeDirectories dataDir with
  | (p, false) => (.failure (RecordsFault.noDirectory.message dataDir), p)
  | (p, true) =>
      match p.openRecords (Address.ofDirectory dataDir) with
      | (p, none) => (.failure (RecordsFault.unreadable.message dataDir), p)
      | (p, some (path, store)) =>
          let (report, records) := use ⟨store, p.named⟩
          let p := { p with named := records.named }
          (report, (path.map fun path => p.put path (.records records.store)).getD p)

/-- Perform what a command line asks for. -/
def perform (p : Place) (i : Invocation) (stdin : String) (clock : Instant) (runId : Nat → String) :
    Report × Place :=
  let (config, stdin) := p.readNamed stdin i.config
  let (flow, stdin) := p.readNamed stdin i.flowFile?
  match i.errand ⟨config, flow, stdin, clock, runId⟩ with
  | .done report => (report, p)
  | .withRecords use => p.onRecords (i.dataDir.getD ".ledgerflow") use

end Place

end Dunning
