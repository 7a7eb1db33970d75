import Dunning.Json.Value
import Dunning.Number.Layout

/-!
# Writing documents

Compact text has no blanks between tokens. Indented text puts every array item
and object entry on a line of its own, two blanks deeper than its container.
-/
namespace Dunning.Json

/-- A lower-case hexadecimal digit. -/
def hexDigit (n : Nat) : Char := if n < 10 then Char.ofNat (48 + n) else Char.ofNat (87 + n)

/-- A character of a string: the quote, the backslash and control characters are escaped. -/
def escaped (c : Char) : List Char :=
  if c = '"' then ['\\', '"']
  else if c = '\\' then ['\\', '\\']
  else if c = '\x08' then ['\\', 'b']
  else if c = '\t' then ['\\', 't']
  else if c = '\n' then ['\\', 'n']
  else if c = '\x0c' then ['\\', 'f']
  else if c = '\r' then ['\\', 'r']
  else if c.toNat < 32 then ['\\', 'u', '0', '0', hexDigit (c.toNat / 16), hexDigit (c.toNat % 16)]
  else [c]

/-- A string between quotes. -/
def quoted (s : String) : List Char := '"' :: s.toList.flatMap escaped ++ ['"']

def numberText : Number → String
  | .int i => if i < 0 then "-" ++ Decimal.digitText i.natAbs else Decimal.digitText i.natAbs
  | .float x => x.text .json

def scalar : Json → List Char
  | .null => "null".toList
  | .bool b => (if b then "true" else "false").toList
  | .number n => (numberText n).toList
  | .string s => quoted s
  | .array _ => []
  | .object _ => []

mutual

/-- Compact text. -/
def chars : Json → List Char
  | .array items => '[' :: charsItems items ++ [']']
  | .object entries => '{' :: charsEntries entries ++ ['}']
  | j => scalar j

def charsItems : List Json → List Char
  | [] => []
  | [j] => chars j
  | j :: rest => chars j ++ ',' :: charsItems rest

def charsEntries : List (String × Json) → List Char
  | [] => []
  | [(k, j)] => quoted k ++ ':' :: chars j
  | (k, j) :: rest => quoted k ++ ':' :: chars j ++ ',' :: charsEntries rest

end

/-- Compact text. -/
def text (j : Json) : String := String.ofList j.chars

/-- A line break and the indentation of a depth. -/
def newline (depth : Nat) : List Char := '\n' :: List.replicate (2 * depth) ' '

mutual

/-- Indented text at a depth. -/
def indentedChars (depth : Nat) : Json → List Char
  | .array [] => ['[', ']']
  | .array items => '[' :: indentedItems (depth + 1) items ++ newline depth ++ [']']
  | .object [] => ['{', '}']
  | .object entries => '{' :: indentedEntries (depth + 1) entries ++ newline depth ++ ['}']
  | j => scalar j

def indentedItems (depth : Nat) : List Json → List Char
  | [] => []
  | [j] => newline depth ++ indentedChars depth j
  | j :: rest => newline depth ++ indentedChars depth j ++ ',' :: indentedItems depth rest

def indentedEntries (depth : Nat) : List (String × Json) → List Char
  | [] => []
  | [(k, j)] => newline depth ++ quoted k ++ ':' :: ' ' :: indentedChars depth j
  | (k, j) :: rest =>
      newline depth ++ quoted k ++ ':' :: ' ' :: indentedChars depth j ++ ',' :: indentedEntries depth rest

end

/-- Indented text. -/
def indentedText (j : Json) : String := String.ofList (indentedChars 0 j)

end Dunning.Json
