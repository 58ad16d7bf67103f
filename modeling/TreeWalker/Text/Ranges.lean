/-!
# Sets of code points

A set of code points is given by closed ranges, as the tables of a character
standard list them.
-/

namespace TreeWalker.Text

/-- Whether a code point lies in one of the given closed ranges. -/
def inRanges (ranges : List (Nat × Nat)) (point : Nat) : Bool :=
  ranges.any fun range => range.1 ≤ point && point ≤ range.2

end TreeWalker.Text
