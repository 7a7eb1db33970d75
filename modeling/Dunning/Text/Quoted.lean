import Dunning.Text.Unprintable

/-!
# Quoted text for messages

A text between double quotes in which every character can be seen: quotes,
backslashes and the common control characters have short escapes, other
unprintable characters are written by their code.
-/
namespace Dunning.Text

def quotedChar (c : Char) : String :=
  if c = '\x00' then "\\0"
  else if c = '\t' then "\\t"
  else if c = '\r' then "\\r"
  else if c = '\n' then "\\n"
  else if c = '\\' then "\\\\"
  else if c = '"' then "\\\""
  else if isUnprintable c then
    "\\u\x7b" ++ String.ofList (Nat.toDigits 16 c.toNat) ++ "\x7d"
  else c.toString

def quoted (s : String) : String := "\"" ++ String.join (s.toList.map quotedChar) ++ "\""

end Dunning.Text
