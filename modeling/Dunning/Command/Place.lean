import Dunning.Command.Path
import Dunning.Store.Keyed
import Dunning.Store.Table

/-!
# Places

A place is the tree of directories in which commands are performed, one after
the other. A command finds its files there, makes its data directory, and leaves
its records to the next.
-/
namespace Dunning

inductive Content where
  | directory
  | text (text : String)
  | records (store : TableStore)

/-- Something at a path. -/
structure Holding where
  path : Path
  content : Content

/-- The working directory is the home directory as well. -/
structure Place where
  here : Path
  holdings : List Holding
  /-- How many runs have been named. -/
  named : Nat

namespace Place

def content? (p : Place) (path : Path) : Option Content :=
  if path.isPrefixOf p.here then some .directory
  else (Keyed.find? Holding.path path p.holdings).map Holding.content

def isDirectory (p : Place) (path : Path) : Bool :=
  match p.content? path with
  | some .directory => true
  | _ => false

def put (p : Place) (path : Path) (content : Content) : Place :=
  { p with holdings := Keyed.put Holding.path ⟨path, content⟩ p.holdings }

def remove (p : Place) (path : Path) : Place :=
  { p with holdings := p.holdings.filter fun holding => holding.path ≠ path }

/-- Where a written path starts. -/
def start (p : Place) (text : String) : Path := if text.startsWith "/" then [] else p.here

/-- Go along the parts of a path. Only a directory has a way on. -/
def follow (p : Place) (path : Path) : List String → Option Path
  | [] => some path
  | part :: rest => if p.isDirectory path then p.follow (path.step part) rest else none

/-- The path of standard input. -/
def inputPath : Path := ["dev", "stdin"]

/-- The text of a file, and what is left of standard input, which is a file as well. -/
def read (p : Place) (stdin file : String) : Option String × String :=
  match p.follow (p.start file) (Path.parts file) with
  | none => (none, stdin)
  | some path =>
      if path = inputPath then (some stdin, "")
      else match p.content? path with
        | some (.text text) => (some text, stdin)
        | _ => (none, stdin)

/-- Read a file if one is named. -/
def readNamed (p : Place) (stdin : String) : Option String → Option String × String
  | none => (none, stdin)
  | some file => p.read stdin file

/-- Make one directory, unless it is there. All above it must be, and no name has more than 255
bytes. -/
def makeDirectory? (p : Place) (text : String) : Option Place := do
  let parts := ((Path.parts text).reverse.dropWhile String.isEmpty).reverse
  let path ← p.follow (p.start text) parts
  match p.content? path with
  | some .directory => some p
  | some _ => none
  | none => if (path.getLastD "").utf8ByteSize ≤ 255 then some (p.put path .directory) else none

/-- Make directories until one cannot be made, and tell whether all of them are there. -/
def makeEach (p : Place) : List String → Place × Bool
  | [] => (p, true)
  | text :: rest =>
      match p.makeDirectory? text with
      | some next => next.makeEach rest
      | none => (p, false)

/-- Make a directory with those above it, and tell whether it is there. A written path has at most
4095 bytes. -/
def makeDirectories (p : Place) (text : String) : Place × Bool :=
  if text.utf8ByteSize ≤ 4095 then p.makeEach (Path.stages text) else (p, false)

/-- Put a file with the directories above it. -/
def putFile (p : Place) (file text : String) : Place :=
  let path := (Path.parts file).foldl Path.step (p.start file)
  let above := "/" ++ "/".intercalate path.dropLast
  (p.makeDirectories above).1.put path (.text text)

/-- A place with files in its working directory. -/
def ofFiles (here : Path) (files : List (String × String)) : Place :=
  files.foldl (fun p (file, text) => p.putFile file text) ⟨here, [], 0⟩

end Place

end Dunning
