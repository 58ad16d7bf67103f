import TreeWalker.Token

/-!
# Segments of source text

The scanner cuts source text, from left to right, into segments that are not
empty.  A segment is a token, a gap between tokens, a character that begins
nothing, or a string or comment that the end of the text leaves open.  Where two
rules apply the longer segment is taken, and a comment inside a block comment
has to be closed on its own.
-/

namespace TreeWalker.Lexical

/-- What a segment is. -/
inductive Shape where
  | token (kind : TokenKind) (literal : Value)
  | gap
  | unexpected
  | openString
  | openComment
deriving DecidableEq

/-- A piece of source text. -/
structure Segment where
  shape : Shape
  text : List Char
deriving DecidableEq

/-- A character that may begin an identifier or keyword. -/
def isWordStart (c : Char) : Bool :=
  c.isAlpha || c == '_'

/-- A character that may stand inside an identifier or keyword. -/
def isWordPart (c : Char) : Bool :=
  c.isAlphanum || c == '_'

/-- Space, tab, carriage return and line feed. -/
def isLayout (c : Char) : Bool :=
  c == ' ' || c == '\t' || c == '\r' || c == '\n'

/-- Length of a block comment after its opening, with its closing.  The first
argument counts the comments inside it that are still open, the second the
characters read so far.  There is none if the text ends first. -/
def commentLength? (inner read : Nat) : List Char → Option Nat
  | [] => none
  | '/' :: '*' :: text => commentLength? (inner + 1) (read + 2) text
  | '*' :: '/' :: text =>
    match inner with
    | 0 => some (read + 2)
    | inner + 1 => commentLength? inner (read + 2) text
  | _ :: text => commentLength? inner (read + 1) text

/-- A segment and the text after it. -/
abbrev Lead :=
  Segment × List Char

namespace Lead

/-- The first characters of a text, by number, as a segment. -/
def taking (shape : Shape) (text : List Char) (count : Nat) : Lead :=
  (⟨shape, text.take count⟩, text.drop count)

/-- A token without a literal. -/
def plain (kind : TokenKind) (text : List Char) (count : Nat) : Lead :=
  taking (.token kind .nil) text count

/-- A string: all text up to the next quote. -/
def string (afterQuote : List Char) : Lead :=
  let body := afterQuote.takeWhile (· ≠ '"')
  if body.length < afterQuote.length then
    taking (.token .string (.string (String.ofList body))) ('"' :: afterQuote) (body.length + 2)
  else
    taking .openString ('"' :: afterQuote) (body.length + 1)

/-- The digits after the point that a text begins with, if it begins with one. -/
def fractionDigits : List Char → List Char
  | '.' :: text => text.takeWhile Char.isDigit
  | _ => []

/-- A number: digits, and a point with more digits after it if there are any. -/
def number (text : List Char) : Lead :=
  let whole := text.takeWhile Char.isDigit
  let fraction := fractionDigits (text.drop whole.length)
  let count := if fraction.isEmpty then whole.length else whole.length + 1 + fraction.length
  taking (.token .number (.number (Decimal.readNumeral whole fraction))) text count

/-- A word: a keyword if it is spelled as one, else an identifier. -/
def word (text : List Char) : Lead :=
  let letters := text.takeWhile isWordPart
  let kind := match Keyword.ofSpelling? letters with
    | some keyword => .keyword keyword
    | none => .identifier
  plain kind text letters.length

/-- Text that begins with a slash: a comment or the slash itself.  A line
comment leaves the line feed after it. -/
def slash (afterSlash : List Char) : Lead :=
  match afterSlash with
  | '/' :: comment =>
    taking .gap ('/' :: afterSlash) (2 + (comment.takeWhile (· ≠ '\n')).length)
  | '*' :: comment =>
    match commentLength? 0 0 comment with
    | some count => taking .gap ('/' :: afterSlash) (2 + count)
    | none => taking .openComment ('/' :: afterSlash) (2 + comment.length)
  | _ => plain (.symbol .slash) ('/' :: afterSlash) 1

/-- A symbol, of two characters if they spell one, or else a character that
begins nothing. -/
def symbol (text : List Char) : Lead :=
  match Symbol.ofSpelling? (text.take 2) with
  | some symbol => plain (.symbol symbol) text symbol.spelling.length
  | none =>
    match Symbol.ofSpelling? (text.take 1) with
    | some symbol => plain (.symbol symbol) text 1
    | none => taking .unexpected text 1

/-- The first segment of a text that is not empty. -/
def of (c : Char) (text : List Char) : Lead :=
  if isLayout c then taking .gap (c :: text) 1
  else if c = '"' then string text
  else if c = '/' then slash text
  else if c.isDigit then number (c :: text)
  else if isWordStart c then word (c :: text)
  else symbol (c :: text)

end Lead

namespace Lead

@[simp]
theorem taking_append (shape : Shape) (text : List Char) (count : Nat) :
    (taking shape text count).1.text ++ (taking shape text count).2 = text :=
  List.take_append_drop count text

/-- The first segment of a text takes at least one character from its front. -/
theorem exists_of_eq_taking (c : Char) (text : List Char) :
    ∃ shape count, 1 ≤ count ∧ Lead.of c text = taking shape (c :: text) count := by
  unfold Lead.of
  split
  · exact ⟨_, _, Nat.le_refl 1, rfl⟩
  split
  · next quote =>
      subst quote
      unfold string
      dsimp only
      split
      · exact ⟨_, _, Nat.le_add_left 1 _, rfl⟩
      · exact ⟨_, _, Nat.le_add_left 1 _, rfl⟩
  split
  · next isSlash =>
      subst isSlash
      unfold slash
      split
      · exact ⟨_, _, by omega, rfl⟩
      · split
        · exact ⟨_, _, by omega, rfl⟩
        · exact ⟨_, _, by omega, rfl⟩
      · exact ⟨_, _, Nat.le_refl 1, rfl⟩
  split
  · next digit =>
      refine ⟨_, _, ?_, rfl⟩
      have positive : 1 ≤ ((c :: text).takeWhile Char.isDigit).length := by simp [digit]
      split
      · exact positive
      · omega
  split
  · next start =>
      refine ⟨_, _, ?_, rfl⟩
      have part : isWordPart c = true := by
        simp only [isWordStart, isWordPart, Char.isAlphanum, Bool.or_eq_true] at start ⊢
        rcases start with letter | underscore
        · exact .inl (.inl letter)
        · exact .inr underscore
      simp [part]
  · unfold symbol
    split
    · next found _ => exact ⟨_, _, by cases found <;> decide, rfl⟩
    · split
      · exact ⟨_, _, Nat.le_refl 1, rfl⟩
      · exact ⟨_, _, Nat.le_refl 1, rfl⟩

/-- Nothing is lost between the first segment and the text after it. -/
@[simp]
theorem of_append (c : Char) (text : List Char) :
    (Lead.of c text).1.text ++ (Lead.of c text).2 = c :: text := by
  obtain ⟨shape, count, _, taken⟩ := exists_of_eq_taking c text
  rw [taken, taking_append]

/-- The first segment is not empty. -/
theorem of_text_ne_nil (c : Char) (text : List Char) : (Lead.of c text).1.text ≠ [] := by
  obtain ⟨shape, count, positive, taken⟩ := exists_of_eq_taking c text
  obtain ⟨fewer, rfl⟩ := Nat.exists_eq_add_of_le' positive
  rw [taken]
  simp [taking]

/-- What is left after the first segment is shorter than the text. -/
theorem length_of_snd_le (c : Char) (text : List Char) :
    (Lead.of c text).2.length ≤ text.length := by
  obtain ⟨shape, count, positive, taken⟩ := exists_of_eq_taking c text
  rw [taken]
  simp only [taking, List.length_drop, List.length_cons]
  omega

end Lead

/-- Segments of a text, at most `fuel` of them. -/
def cutAtMost : (fuel : Nat) → List Char → List Segment
  | _, [] => []
  | 0, _ :: _ => []
  | fuel + 1, c :: text =>
    let lead := Lead.of c text
    lead.1 :: cutAtMost fuel lead.2

/-- All segments of a text.  None of them is empty, so there are no more of them
than characters. -/
def cut (text : List Char) : List Segment :=
  cutAtMost text.length text

/-- Bounds that are at least the length of the text give the same segments. -/
theorem cutAtMost_eq {fuel more : Nat} {text : List Char} (enough : text.length ≤ fuel)
    (alsoEnough : text.length ≤ more) : cutAtMost fuel text = cutAtMost more text := by
  induction fuel generalizing more text with
  | zero =>
      have empty : text = [] := List.length_eq_zero_iff.mp (Nat.le_zero.mp enough)
      subst empty
      cases more <;> rfl
  | succ fuel inductionHypothesis =>
      cases text with
      | nil => cases more <;> rfl
      | cons c text =>
          cases more with
          | zero => simp at alsoEnough
          | succ more =>
              have shorter := Lead.length_of_snd_le c text
              simp only [List.length_cons] at enough alsoEnough
              simp only [cutAtMost]
              exact congrArg _ (inductionHypothesis (by omega) (by omega))

@[simp]
theorem cut_nil : cut [] = [] :=
  rfl

/-- Cutting a text cuts off its first segment and cuts the rest. -/
theorem cut_cons (c : Char) (text : List Char) :
    cut (c :: text) = (Lead.of c text).1 :: cut (Lead.of c text).2 := by
  rw [cut, List.length_cons, cutAtMost]
  exact congrArg _ (cutAtMost_eq (Lead.length_of_snd_le c text) (Nat.le_refl _))

/-- A property of texts that passes from what is left after the first segment to
the whole text holds of all texts. -/
theorem cut_induction {motive : List Char → Prop} (nil : motive [])
    (cons : ∀ c text, motive (Lead.of c text).2 → motive (c :: text)) (text : List Char) :
    motive text := by
  induction length : text.length using Nat.strongRecOn generalizing text with
  | ind count inductionHypothesis =>
      cases text with
      | nil => exact nil
      | cons c text =>
          refine cons c text (inductionHypothesis _ ?_ _ rfl)
          have shorter := Lead.length_of_snd_le c text
          simp only [List.length_cons] at length
          omega

/-- The segments of a text, joined, are the text. -/
@[simp]
theorem flatMap_text_cut (text : List Char) : (cut text).flatMap Segment.text = text := by
  induction text using cut_induction with
  | nil => rfl
  | cons c text inductionHypothesis =>
      rw [cut_cons, List.flatMap_cons, inductionHypothesis, Lead.of_append]

/-- No segment is empty. -/
theorem text_ne_nil_of_mem_cut {text : List Char} {segment : Segment}
    (member : segment ∈ cut text) : segment.text ≠ [] := by
  induction text using cut_induction with
  | nil => simp at member
  | cons c text inductionHypothesis =>
      rw [cut_cons, List.mem_cons] at member
      rcases member with rfl | later
      · exact Lead.of_text_ne_nil c text
      · exact inductionHypothesis later

end TreeWalker.Lexical
