/-!
# Blank characters

The characters with the Unicode property `White_Space`, and trimming by them.
-/
namespace Dunning.Text

/-- The ranges of `White_Space`. The byte order mark is not in it. -/
def blankRanges : List (Nat × Nat) :=
  [(0x9, 0xD), (0x20, 0x20), (0x85, 0x85), (0xA0, 0xA0), (0x1680, 0x1680), (0x2000, 0x200A),
   (0x2028, 0x2029), (0x202F, 0x202F), (0x205F, 0x205F), (0x3000, 0x3000)]

def isBlank (c : Char) : Bool := blankRanges.any fun r => r.1 ≤ c.toNat && c.toNat ≤ r.2

def dropBlank (text : List Char) : List Char := text.dropWhile isBlank

/-- A text without the blanks at its ends. -/
def trim (text : List Char) : List Char := (dropBlank (dropBlank text).reverse).reverse

/-- Whether a text holds nothing but blanks. -/
def allBlank (s : String) : Bool := s.toList.all isBlank

end Dunning.Text
