import Dunning.Command.Basic

/-!
# Command lines

A command line has two levels: options, then the name of a command and its own
options and words. Options with a value may stand on either level, once on each,
and those of the command prevail. After `--` all is words.
-/
namespace Dunning

/-- What an argument is. -/
inductive Argument where
  | word
  /-- `--name` or `--name=value`. -/
  | long (name : String) (value : Option String)
  /-- `--`. -/
  | endOfOptions
  /-- A dash and more. No option is written so. -/
  | short
  deriving DecidableEq, Repr

def Argument.ofText (text : String) : Argument :=
  match text.toList with
  | ['-', '-'] => .endOfOptions
  | '-' :: '-' :: body =>
      let name := String.ofList (body.takeWhile (· ≠ '='))
      match body.dropWhile (· ≠ '=') with
      | [] => .long name none
      | _ :: value => .long name (some (String.ofList value))
  | '-' :: _ :: _ => .short
  | _ => .word

/-- What has been read on a level. -/
structure Level where
  dataDir : Option String
  config : Option String
  live : Bool
  words : List String
  deriving DecidableEq, Repr

namespace Level

def empty : Level := ⟨none, none, false, []⟩

/-- Set an option with a value. The value is not empty, and the option not set before. -/
def set? (l : Level) (name value : String) : Option Level :=
  if value.isEmpty then none
  else match name with
    | "data-dir" => if l.dataDir.isSome then none else some { l with dataDir := some value }
    | "config" => if l.config.isSome then none else some { l with config := some value }
    | _ => none

/-- Read a level and tell what is left. The outer level ends with its first word, and knows no
`--live`. -/
def read (outer : Bool) (l : Level) : List String → Option (Level × List String)
  | [] => some (l, [])
  | text :: rest =>
      match Argument.ofText text with
      | .word =>
          if outer then some ({ l with words := [text] }, rest)
          else read outer { l with words := l.words ++ [text] } rest
      | .endOfOptions =>
          if outer && !rest.isEmpty then none else some ({ l with words := l.words ++ rest }, [])
      | .short => none
      | .long name (some value) => (l.set? name value).bind fun next => read outer next rest
      | .long name none =>
          if name = "live" then
            if outer || l.live then none else read outer { l with live := true } rest
          else match rest with
            | [] => none
            | value :: left =>
                if Argument.ofText value = .word then
                  (l.set? name value).bind fun next => read outer next left
                else none

end Level

/-- The command of a name, its words, and whether `--live` was given. -/
def Command.ofWords? (name : String) (words : List String) (live : Bool) : Option Command :=
  let file? := fun (make : String → Command) => match words with
    | [file] => if file.isEmpty then none else some (make file)
    | _ => none
  let mode : Mode := if live then .live else .dryRun
  match name, words with
  | "run", _ => file? fun file => .run file mode
  | "dispatch", [] => some (.dispatch mode)
  | "validate", _ => if live then none else file? .validate
  | "import", _ => if live then none else file? .importFlow
  | "resume", [id] => if live then none else some (.resume id)
  | "runs", [id] => if live then none else some (.runs id)
  | _, _ => none

/-- Read a command line; `none` when it makes no sense. -/
def Invocation.parse (args : List String) : Option Invocation := do
  let (outer, rest) ← Level.empty.read true args
  match outer.words with
  | [] => return ⟨outer.dataDir, outer.config, none⟩
  | name :: _ => do
      let (inner, _) ← Level.empty.read false rest
      let command ← Command.ofWords? name inner.words inner.live
      return ⟨inner.dataDir.or outer.dataDir, inner.config.or outer.config, some command⟩

end Dunning
