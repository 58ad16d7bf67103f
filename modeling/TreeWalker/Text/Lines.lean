/-!
# Lines

A line feed ends a line, so text with `n` line feeds has `n + 1` lines, of which
the last may be empty.  Text that comes from outside may end its lines with a
carriage return, alone or before a line feed; `normalizeEnds` turns both into
one line feed.
-/

namespace TreeWalker.Text

/-- Put a character in front of the first of several lines. -/
def pushFront (c : Char) : List (List Char) → List (List Char)
  | [] => [[c]]
  | line :: lines => (c :: line) :: lines

/-- The lines of a text, without the line feeds between them. -/
def lines (text : List Char) : List (List Char) :=
  text.foldr (fun c below => if c = '\n' then [] :: below else pushFront c below) [[]]

/-- Line with the given number, counted from one. -/
def line? (text : List Char) (number : Int) : Option (List Char) :=
  if 1 ≤ number then (lines text)[(number - 1).toNat]? else none

/-- Text in which every line ends with a line feed alone. -/
def normalizeEnds : List Char → List Char
  | [] => []
  | '\r' :: '\n' :: text => '\n' :: normalizeEnds text
  | '\r' :: text => '\n' :: normalizeEnds text
  | c :: text => c :: normalizeEnds text

/-- The lines a reader gets one by one: nothing is left to read after a line
feed at the end. -/
def readableLines (text : List Char) : List (List Char) :=
  let all := lines text
  if all.getLast? = some [] then all.dropLast else all

@[simp]
theorem lines_nil : lines [] = [[]] :=
  rfl

theorem lines_cons (c : Char) (text : List Char) :
    lines (c :: text) = if c = '\n' then [] :: lines text else pushFront c (lines text) :=
  rfl

@[simp]
theorem length_pushFront (c : Char) {below : List (List Char)} (nonempty : below ≠ []) :
    (pushFront c below).length = below.length := by
  cases below with
  | nil => exact absurd rfl nonempty
  | cons line lines => rfl

theorem lines_ne_nil (text : List Char) : lines text ≠ [] := by
  induction text with
  | nil => simp
  | cons c text _ =>
      rw [lines_cons]
      split
      · simp
      · cases lines text <;> simp [pushFront]

/-- A text has one line more than it has line feeds. -/
@[simp]
theorem length_lines (text : List Char) : (lines text).length = text.count '\n' + 1 := by
  induction text with
  | nil => rfl
  | cons c text inductionHypothesis =>
      rw [lines_cons]
      split
      · next newline => simp [newline, inductionHypothesis]
      · next other =>
          rw [length_pushFront c (lines_ne_nil text), inductionHypothesis,
            List.count_cons_of_ne other]

end TreeWalker.Text
