import Mathlib.Data.List.Basic
import TreeWalker.Proofs.Lexical.Comment

/-!
# The lexical rules

What may stand between two places in a source, said without a scanner.  A rule
names the text of a segment and what may follow it.  Numbers and words are the
longest texts of their kind, and a symbol must not go on to a longer one or to a
comment.  What is left open by the end of the source goes up to that end.  A
character that begins nothing of all this is a segment of its own.
-/

namespace TreeWalker

namespace Symbol

/-- A character after a symbol that makes it the beginning of something else. -/
def goesOn : Symbol → Char → Prop
  | bang, c | equal, c | less, c | greater, c => c = '='
  | slash, c => c = '/' ∨ c = '*'
  | _, _ => False

/-- A symbol is a single character, or such a symbol with an `=` after it. -/
theorem spelling_cases (symbol : Symbol) :
    (∃ c, symbol.spelling = [c]) ∨
      ∃ c short, symbol.spelling = [c, '='] ∧ spelling short = [c] ∧
        ∀ d, ¬ symbol.goesOn d := by
  cases symbol with
  | bangEqual => exact .inr ⟨_, .bang, rfl, rfl, fun _ => id⟩
  | equalEqual => exact .inr ⟨_, .equal, rfl, rfl, fun _ => id⟩
  | lessEqual => exact .inr ⟨_, .less, rfl, rfl, fun _ => id⟩
  | greaterEqual => exact .inr ⟨_, .greater, rfl, rfl, fun _ => id⟩
  | _ => exact .inl ⟨_, rfl⟩

theorem exists_first (symbol : Symbol) :
    ∃ c tail first, symbol.spelling = c :: tail ∧ spelling first = [c] := by
  rcases symbol.spelling_cases with ⟨c, spelled⟩ | ⟨c, short, spelled, shortSpelled, _⟩
  · exact ⟨c, [], symbol, spelled, spelled⟩
  · exact ⟨c, ['='], short, spelled, shortSpelled⟩

end Symbol

namespace Lexical

/-! ## Longest texts -/

/-- A text belongs to a language, and none that is longer and goes on into the rest
does. -/
structure Longest (language : List Char → Prop) (text rest : List Char) : Prop where
  belongs : language text
  longest : ∀ more, more <+: rest → language (text ++ more) → more = []

/-- If some text in front belongs to a language, there is a longest one. -/
theorem exists_longest {language : List Char → Prop} {text : List Char}
    (belongs : language text) (rest : List Char) :
    ∃ front tail, text ++ rest = front ++ tail ∧ text <+: front ∧
      Longest language front tail := by
  induction length : rest.length using Nat.strongRecOn generalizing text rest with
  | ind count inductionHypothesis =>
      by_cases longest : ∀ more, more <+: rest → language (text ++ more) → more = []
      · exact ⟨text, rest, rfl, List.prefix_rfl, belongs, longest⟩
      · push Not at longest
        obtain ⟨more, ⟨rest, rfl⟩, longer, nonempty⟩ := longest
        have shorter : rest.length < count := by
          have positive := List.length_pos_iff.mpr nonempty
          rw [← length, List.length_append]
          omega
        rcases inductionHypothesis _ shorter longer rest rfl with
          ⟨front, tail, split, begins, found⟩
        refine ⟨front, tail, ?_, (List.prefix_append text more).trans begins, found⟩
        rw [← split, List.append_assoc]

/-- Digits, at least one. -/
def IsDigits (text : List Char) : Prop :=
  text ≠ [] ∧ ∀ c ∈ text, c.isDigit = true

/-- A numeral with its digits before and after the point.  Where there is a point
there are digits after it. -/
inductive Numeral : (whole fraction text : List Char) → Prop where
  | whole {whole : List Char} (digits : IsDigits whole) : Numeral whole [] whole
  | decimal {whole fraction : List Char} (digits : IsDigits whole) (more : IsDigits fraction) :
    Numeral whole fraction (whole ++ '.' :: fraction)

/-- Some numeral. -/
def IsNumeral (text : List Char) : Prop :=
  ∃ whole fraction, Numeral whole fraction text

/-- An identifier or a keyword. -/
def IsWord (text : List Char) : Prop :=
  ∃ c letters, text = c :: letters ∧ isWordStart c = true ∧
    ∀ letter ∈ letters, isWordPart letter = true

/-! ## Segments -/

/-- `Piece shape text rest`: in front of the rest of a source, the text is a
segment of the given shape. -/
inductive Piece : Shape → List Char → List Char → Prop where
  | symbol {symbol : Symbol} {rest : List Char} (alone : ∀ c ∈ rest.head?, ¬ symbol.goesOn c) :
    Piece (.token (.symbol symbol) .nil) symbol.spelling rest
  | number {whole fraction text rest : List Char} (numeral : Numeral whole fraction text)
    (longest : Longest IsNumeral text rest) :
    Piece (.token .number (.number (Decimal.readNumeral whole fraction))) text rest
  | keyword {keyword : Keyword} {rest : List Char}
    (longest : Longest IsWord keyword.spelling rest) :
    Piece (.token (.keyword keyword) .nil) keyword.spelling rest
  | identifier {text rest : List Char} (longest : Longest IsWord text rest)
    (noKeyword : ∀ keyword : Keyword, keyword.spelling ≠ text) :
    Piece (.token .identifier .nil) text rest
  | string {body rest : List Char} (inside : '"' ∉ body) :
    Piece (.token .string (.string (String.ofList body))) ('"' :: (body ++ ['"'])) rest
  | layout {c : Char} {rest : List Char} (layout : c ∈ [' ', '\t', '\r', '\n']) :
    Piece .gap [c] rest
  | lineComment {body rest : List Char} (inside : '\n' ∉ body)
    (ends : ∀ c ∈ rest.head?, c = '\n') : Piece .gap ('/' :: '/' :: body) rest
  | blockComment {body rest : List Char} (closes : Closes (body ++ rest) rest) :
    Piece .gap ('/' :: '*' :: body) rest
  | openString {body : List Char} (inside : '"' ∉ body) : Piece .openString ('"' :: body) []
  | openComment {body : List Char} (unclosed : ∀ rest, ¬ Closes body rest) :
    Piece .openComment ('/' :: '*' :: body) []

/-- No piece begins with the character. -/
def BeginsNothing (c : Char) : Prop :=
  ∀ shape text rest, ¬ Piece shape (c :: text) rest

/-- In front of the rest of a source there may be a segment: a piece, or a
character that begins none. -/
inductive Fronts : Segment → List Char → Prop where
  | piece {shape : Shape} {text rest : List Char} (piece : Piece shape text rest) :
    Fronts ⟨shape, text⟩ rest
  | unexpected {c : Char} {rest : List Char} (nothing : BeginsNothing c) :
    Fronts ⟨.unexpected, [c]⟩ rest

/-- The segments, joined, are the source, and each may stand where it stands. -/
inductive Decomposes : List Segment → List Char → Prop where
  | nil : Decomposes [] []
  | cons {segment : Segment} {segments : List Segment} {rest : List Char}
    (fronts : Fronts segment rest) (others : Decomposes segments rest) :
    Decomposes (segment :: segments) (segment.text ++ rest)

/-! ## First characters -/

theorem IsNumeral.head {text : List Char} (numeral : IsNumeral text) :
    ∃ c digits, text = c :: digits ∧ c.isDigit = true := by
  obtain ⟨whole, fraction, numeral⟩ := numeral
  cases numeral with
  | whole digits =>
      obtain ⟨c, others, rfl⟩ := List.exists_cons_of_ne_nil digits.1
      exact ⟨c, others, rfl, digits.2 c List.mem_cons_self⟩
  | decimal digits =>
      rcases List.exists_cons_of_ne_nil digits.1 with ⟨c, others, rfl⟩
      exact ⟨c, _, rfl, digits.2 c List.mem_cons_self⟩

/-- The ways in which a piece may begin. -/
def Starts (c : Char) : Prop :=
  isLayout c = true ∨ c = '"' ∨ c.isDigit = true ∨ isWordStart c = true ∨
    ∃ symbol : Symbol, symbol.spelling = [c]

theorem Piece.head {shape : Shape} {text rest : List Char} (piece : Piece shape text rest) :
    ∃ c tail, text = c :: tail ∧ Starts c := by
  cases piece with
  | @symbol symbol =>
      rcases symbol.exists_first with ⟨c, tail, first, spelled, firstSpelled⟩
      exact ⟨c, tail, spelled, .inr (.inr (.inr (.inr ⟨first, firstSpelled⟩)))⟩
  | number _ longest =>
      obtain ⟨c, digits, same, isDigit⟩ := longest.belongs.head
      exact ⟨c, digits, same, .inr (.inr (.inl isDigit))⟩
  | keyword longest | identifier longest =>
      rcases longest.belongs with ⟨c, letters, same, starts, _⟩
      exact ⟨c, letters, same, .inr (.inr (.inr (.inl starts)))⟩
  | string | openString => exact ⟨'"', _, rfl, .inr (.inl rfl)⟩
  | @layout c _ layout =>
      refine ⟨c, [], rfl, .inl ?_⟩
      simpa [isLayout, or_assoc] using layout
  | lineComment | blockComment | openComment =>
      exact ⟨'/', _, rfl, .inr (.inr (.inr (.inr ⟨.slash, rfl⟩)))⟩

theorem Fronts.text_ne_nil {segment : Segment} {rest : List Char}
    (fronts : Fronts segment rest) : segment.text ≠ [] := by
  cases fronts with
  | piece piece =>
      rcases piece.head with ⟨c, tail, rfl, _⟩
      exact List.cons_ne_nil c tail
  | unexpected => exact List.cons_ne_nil _ _

end Lexical

end TreeWalker
