import Dunning.Text.CaseTable

/-!
# Lower case

Lower case for all of Unicode. A capital sigma at the end of a word becomes the
final sigma: some letter stands before it and none after it, when marks and
signs that take no part in case are passed over. Comparison by Latin case alone
is separate.
-/
namespace Dunning.Text

def inRanges (ranges : List (Nat × Nat)) (c : Char) : Bool :=
  ranges.any fun r => r.1 ≤ c.toNat && c.toNat ≤ r.2

def isCased (c : Char) : Bool := inRanges casedRanges c

def isCaseIgnorable (c : Char) : Bool := inRanges caseIgnorableRanges c

def CapitalRun.covers (r : CapitalRun) (c : Char) : Bool :=
  r.first ≤ c.toNat && c.toNat ≤ r.last && (c.toNat - r.first) % r.stride == 0

/-- The lower case of a character out of context. The capital I with a dot keeps the dot. -/
def lowerChar (c : Char) : List Char :=
  if c = '\u0130' then ['i', '\u0307']
  else match capitalRuns.find? fun r => r.covers c with
    | some r => [Char.ofNat (r.lower + (c.toNat - r.first))]
    | none => [c]

/-- Whether the first character that is not passed over is a letter with case. -/
def meetsCased (text : List Char) : Bool :=
  match text.dropWhile isCaseIgnorable with
  | [] => false
  | c :: _ => isCased c

/-- Lower case of a text; `before` is what precedes it, in reverse. -/
def lowerFrom (before : List Char) : List Char → List Char
  | [] => []
  | c :: rest =>
      let here := if c = '\u03a3' then
          [if meetsCased before && !meetsCased rest then '\u03c2' else '\u03c3']
        else lowerChar c
      here ++ lowerFrom (c :: before) rest

def lower (text : List Char) : List Char := lowerFrom [] text

/-- Equality without regard to the case of the letters A to Z. -/
def sameLatin (s t : List Char) : Bool := s.map Char.toLower == t.map Char.toLower

/-- Whether `needle` stands somewhere in a text. -/
def contains (needle : List Char) : List Char → Bool
  | [] => needle.isEmpty
  | c :: rest => needle.isPrefixOf (c :: rest) || contains needle rest

end Dunning.Text
