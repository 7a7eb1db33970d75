/-!
# Faults of a text

Why a text is not a document: the rule that is broken at the first place where
the text cannot be read on.
-/
namespace Dunning.Json

inductive Fault where
  | endInArray
  | endInObject
  | endInString
  | endInValue
  | noColon
  | noArrayComma
  | noObjectComma
  | badWord
  | noValue
  | badEscape
  | badNumber
  | hugeNumber
  | controlCharacter
  | noKey
  | loneHalf
  | openHalf
  | strayComma
  | trailing
  | tooDeep
  deriving DecidableEq, Repr, Inhabited

def Fault.message : Fault → String
  | endInArray => "EOF while parsing a list"
  | endInObject => "EOF while parsing an object"
  | endInString => "EOF while parsing a string"
  | endInValue => "EOF while parsing a value"
  | noColon => "expected `:`"
  | noArrayComma => "expected `,` or `]`"
  | noObjectComma => "expected `,` or `\x7d`"
  | badWord => "expected ident"
  | noValue => "expected value"
  | badEscape => "invalid escape"
  | badNumber => "invalid number"
  | hugeNumber => "number out of range"
  | controlCharacter => "control character (\\u0000-\\u001F) found while parsing a string"
  | noKey => "key must be a string"
  | loneHalf => "lone leading surrogate in hex escape"
  | openHalf => "unexpected end of hex escape"
  | strayComma => "trailing comma"
  | trailing => "trailing characters"
  | tooDeep => "recursion limit exceeded"

end Dunning.Json
