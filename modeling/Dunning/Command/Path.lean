/-!
# Paths

A path is written as parts between slashes. What a written path leads to depends
on the directories on its way, so the written form is kept until it is followed.
-/
namespace Dunning

/-- The names on the way from the root. -/
abbrev Path := List String

namespace Path

/-- The parts of a written path. Empty parts and dots stay where they are. -/
def parts (text : String) : List String := text.splitOn "/"

/-- One part further. -/
def step (path : Path) (part : String) : Path :=
  if part = "" ∨ part = "." then path else if part = ".." then path.dropLast else path ++ [part]

/-- How many bytes a path takes when it is written in full. -/
def size (path : Path) : Nat := ("/".intercalate ("" :: path)).utf8ByteSize

/-- The path whose last name goes on with a suffix. -/
def extend (path : Path) (suffix : String) : Path :=
  path.dropLast ++ [path.getLastD "" ++ suffix]

/-- The directories to be made, one after the other, for a written path to lead to a directory.
Those above it are named without empty parts and dots, but the last one is the path as it is
written: no directory is made as `a/.`, though it is there once `a` is. -/
def stages (text : String) : List String :=
  let lead := if text.startsWith "/" then "/" else ""
  let names := (parts text).filter fun part => part ≠ "" ∧ part ≠ "."
  let above := (List.range (names.length - 1)).map fun n => names.take (n + 1)
  above.map (fun names => lead ++ "/".intercalate names) ++ [text]

end Path

end Dunning
