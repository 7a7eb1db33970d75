import Dunning.Json.Token

/-!
# Documents as read

A document is built from its tokens by one transition for each token. Nothing
is refused while it is built: where the text breaks, the containers that are
still open stay unclosed, so that a reader meets the first fault in text order.
-/
namespace Dunning

open Json (Fault)

/-- A document as far as it could be read. Containers say why they were not closed. A `flaw` is a
place without a value: the text is malformed there, or holds a string with half of a pair or a
number past the range of floats. Only a reader of that place is troubled by the last two, and by
containers that are nested too deeply. -/
inductive Doc where
  | null
  | bool (b : Bool)
  | number (n : Number)
  | string (s : String)
  | array (items : List Doc) (unclosed : Option Fault)
  | object (entries : List (Except Fault String × Doc)) (unclosed : Option Fault)
  | deep (container : Doc)
  | flaw (fault : Fault)

instance : Inhabited Doc := ⟨.null⟩

namespace Doc

/-- An entry of an object: a key, if it is a string, and its value. -/
abbrev Entry := Except Fault String × Doc

/-- Containers may be nested this deep. -/
def maxDepth : Nat := 127

/-- A container around the value that is being read; contents are in reverse. -/
inductive Frame where
  | array (items : List Doc)
  | object (entries : List Entry) (key : Except Fault String)

/-- What has been built, and which token may come next. -/
inductive Builder where
  /-- A value must come. -/
  | value (stack : List Frame)
  /-- An item or the end of an empty array. -/
  | firstItem (stack : List Frame)
  /-- A comma or the end of an array. -/
  | afterItem (items : List Doc) (stack : List Frame)
  /-- A key or the end of an empty object. -/
  | firstKey (stack : List Frame)
  /-- A key. -/
  | nextKey (entries : List Entry) (stack : List Frame)
  /-- A colon. -/
  | afterKey (entries : List Entry) (key : Except Fault String) (stack : List Frame)
  /-- A comma or the end of an object. -/
  | afterEntry (entries : List Entry) (stack : List Frame)
  /-- The end of the text. -/
  | complete (doc : Doc)
  /-- The text went on after the document. -/
  | trailing (doc : Doc)
  /-- The text broke inside the document. -/
  | broken (doc : Doc)

namespace Builder

/-- Put a finished value into the container around it. -/
def deliver (doc : Doc) : List Frame → Builder
  | [] => complete doc
  | .array items :: stack => afterItem (doc :: items) stack
  | .object entries key :: stack => afterEntry ((key, doc) :: entries) stack

/-- A container with others around it. -/
def contained (doc : Doc) (stack : List Frame) : Doc :=
  if (stack.drop (maxDepth - 1)).isEmpty then doc else .deep doc

/-- Put a finished container into the container around it. -/
def deliverContainer (doc : Doc) (stack : List Frame) : Builder :=
  deliver (contained doc stack) stack

/-- Leave all containers unclosed. -/
def abandon (fault : Fault) (doc : Doc) : List Frame → Builder
  | [] => broken doc
  | .array items :: stack =>
      abandon fault (contained (.array (doc :: items).reverse (some fault)) stack) stack
  | .object entries key :: stack =>
      abandon fault (contained (.object ((key, doc) :: entries).reverse (some fault)) stack) stack

/-- Leave an array unclosed, and all around it. -/
def abandonArray (fault : Fault) (items : List Doc) (stack : List Frame) : Builder :=
  abandon fault (contained (.array items.reverse (some fault)) stack) stack

/-- Leave an object unclosed, and all around it. -/
def abandonObject (fault : Fault) (entries : List Entry) (stack : List Frame) : Builder :=
  abandon fault (contained (.object entries.reverse (some fault)) stack) stack

/-- Leave a place without a value. -/
def abandonValue (fault : Fault) (stack : List Frame) : Builder := abandon fault (.flaw fault) stack

/-- The fault of a token where a value must come. A comma in an array must not be the last. -/
def valueFault (stack : List Frame) : Json.Token → Fault
  | .broken fault => fault
  | .endOfText => .endInValue
  | .closeArray => match stack with
    | .array _ :: _ => .strayComma
    | _ => .noValue
  | _ => .noValue

/-- Start a value; `fault` tells what any other token means. -/
def startValue (stack : List Frame) (fault : Json.Token → Fault) (token : Json.Token) : Builder :=
  match token with
  | .null => deliver .null stack
  | .bool b => deliver (.bool b) stack
  | .number (some n) => deliver (.number n) stack
  | .number none => deliver (.flaw .hugeNumber) stack
  | .string (.ok s) => deliver (.string s) stack
  | .string (.error f) => deliver (.flaw f) stack
  | .openArray => firstItem stack
  | .openObject => firstKey stack
  | other => abandonValue (fault other) stack

/-- The fault of a token where a first item must come. -/
def firstItemFault : Json.Token → Fault
  | .endOfText => .endInArray
  | token => valueFault [] token

def step (state : Builder) (token : Json.Token) : Builder :=
  match state with
  | value stack => startValue stack (valueFault stack) token
  | firstItem stack => match token with
    | .closeArray => deliverContainer (.array [] none) stack
    | .endOfText => abandonArray .endInArray [] stack
    | other => startValue (.array [] :: stack) firstItemFault other
  | afterItem items stack => match token with
    | .comma => value (.array items :: stack)
    | .closeArray => deliverContainer (.array items.reverse none) stack
    | .endOfText => abandonArray .endInArray items stack
    | _ => abandonArray .noArrayComma items stack
  | firstKey stack => match token with
    | .string key => afterKey [] key stack
    | .closeObject => deliverContainer (.object [] none) stack
    | .endOfText => abandonObject .endInObject [] stack
    | _ => abandonObject .noKey [] stack
  | nextKey entries stack => match token with
    | .string key => afterKey entries key stack
    | .closeObject => abandonObject .strayComma entries stack
    | .endOfText => abandonObject .endInValue entries stack
    | _ => abandonObject .noKey entries stack
  | afterKey entries key stack => match token with
    | .colon => value (.object entries key :: stack)
    | .endOfText => abandonValue .endInObject (.object entries key :: stack)
    | _ => abandonValue .noColon (.object entries key :: stack)
  | afterEntry entries stack => match token with
    | .comma => nextKey entries stack
    | .closeObject => deliverContainer (.object entries.reverse none) stack
    | .endOfText => abandonObject .endInObject entries stack
    | _ => abandonObject .noObjectComma entries stack
  | complete doc => match token with
    | .endOfText => complete doc
    | _ => trailing doc
  | trailing doc => trailing doc
  | broken doc => broken doc

/-- The document, and whether the text held nothing else. -/
def finish : Builder → Doc × Bool
  | complete doc => (doc, true)
  | trailing doc => (doc, false)
  | broken doc => (doc, false)
  | _ => (.flaw .endInValue, false)

end Builder

/-- Reading a text: the token being read and the document being built. -/
structure Scan where
  lexer : Json.LexState
  builder : Builder

def Scan.step (s : Scan) (c : Char) : Scan :=
  let (next, tokens) := s.lexer.step c
  ⟨next, tokens.foldl Builder.step s.builder⟩

/-- The document that a text starts with, and whether the text held nothing else. -/
def parse (text : String) : Doc × Bool :=
  let scan := text.toList.foldl Scan.step ⟨.between, .value []⟩
  (scan.lexer.finish.foldl Builder.step scan.builder).finish

end Doc

end Dunning
