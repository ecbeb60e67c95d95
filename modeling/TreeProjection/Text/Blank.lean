import TreeProjection.Text.Ranges

/-!
# Blanks

The characters that only take up space or end a line, in all scripts.
-/

namespace TreeProjection.Text

/-- The first and last code points of the ranges of blanks, in ascending order. -/
def blankRanges : Array (Nat × Nat) := #[
  (0x9, 0xd), (0x20, 0x20), (0x85, 0x85), (0xa0, 0xa0), (0x1680, 0x1680), (0x2000, 0x200a),
  (0x2028, 0x2029), (0x202f, 0x202f), (0x205f, 0x205f), (0x3000, 0x3000)
]

def isBlank (c : Char) : Bool := inRanges blankRanges c

/-- A text without the blanks at its beginning and its end. -/
def trimmed (text : List Char) : List Char :=
  ((text.dropWhile isBlank).reverse.dropWhile isBlank).reverse

end TreeProjection.Text
