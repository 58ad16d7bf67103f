import TreeWalker.Text.Ranges

/-!
# Blank text

A line is blank when it holds nothing but white space.  White space is every
character that is a space by its category or by its bidirectional class, the
control characters that separate lines, files, groups, records and units
included.
-/

namespace TreeWalker.Text

/-- Code points of white space, as closed ranges in increasing order. -/
def blankRanges : List (Nat × Nat) :=
  [(0x0009, 0x000D), (0x001C, 0x0020), (0x0085, 0x0085), (0x00A0, 0x00A0), (0x1680, 0x1680),
    (0x2000, 0x200A), (0x2028, 0x2029), (0x202F, 0x202F), (0x205F, 0x205F), (0x3000, 0x3000)]

/-- White space. -/
def isBlank (c : Char) : Bool :=
  inRanges blankRanges c.toNat

/-- Text without the white space at its two ends. -/
def trim (text : List Char) : List Char :=
  ((text.dropWhile isBlank).reverse.dropWhile isBlank).reverse

/-- Whether text holds nothing but white space. -/
def allBlank (text : List Char) : Bool :=
  text.all isBlank

end TreeWalker.Text
