import TreeWalker.Proofs.Lexical.Joining

/-!
# Tokens written out

A token is well formed if its lexeme is one of its kind and its literal is what the
lexeme stands for.  Tokens are written out one after the other, with some layout
between neighbours.

No token but a string goes on over layout, and a string ends at its own quote.  So
each token is cut off where it was written, whatever stands before and after it, and
the scanner reads the tokens that were written out.
-/

namespace TreeWalker

open Lexical

/-- The lexeme is one of the kind, and the literal is what it stands for. -/
inductive Token.IsWellFormed : Token → Prop where
  | symbol (symbol : Symbol) (line : Int) :
    IsWellFormed ⟨.symbol symbol, String.ofList symbol.spelling, .nil, line⟩
  | keyword (keyword : Keyword) (line : Int) :
    IsWellFormed ⟨.keyword keyword, String.ofList keyword.spelling, .nil, line⟩
  | identifier {text : List Char} (word : IsWord text)
    (noKeyword : ∀ keyword : Keyword, keyword.spelling ≠ text) (line : Int) :
    IsWellFormed ⟨.identifier, String.ofList text, .nil, line⟩
  | number {whole fraction text : List Char} (numeral : Numeral whole fraction text)
    (line : Int) :
    IsWellFormed
      ⟨.number, String.ofList text, .number (Decimal.readNumeral whole fraction), line⟩
  | string {body : List Char} (inside : '"' ∉ body) (line : Int) :
    IsWellFormed
      ⟨.string, String.ofList ('"' :: (body ++ ['"'])), .string (String.ofList body), line⟩

namespace Lexical

/-- Spaces, tabs, carriage returns and line feeds, at least one. -/
def IsLayoutRun (text : List Char) : Prop :=
  text ≠ [] ∧ ∀ c ∈ text, c ∈ [' ', '\t', '\r', '\n']

theorem isLayoutRun_iff {text : List Char} :
    IsLayoutRun text ↔ text ≠ [] ∧ text.all isLayout = true := by
  rw [IsLayoutRun, List.all_eq_true]
  simp only [isLayout_iff]

instance (text : List Char) : Decidable (IsLayoutRun text) :=
  decidable_of_iff _ isLayoutRun_iff.symm

/-- The text is made of the lexemes of the tokens, with layout between neighbours. -/
inductive Written : List Token → List Char → Prop where
  | nothing : Written [] []
  | single (token : Token) : Written [token] token.lexeme.toList
  | cons {token next : Token} {tokens : List Token} {gap text : List Char}
    (layout : IsLayoutRun gap) (others : Written (next :: tokens) text) :
    Written (token :: next :: tokens) (token.lexeme.toList ++ (gap ++ text))

/-! ## What the segments hold -/

/-- The content of the token that a segment is, if it is one. -/
def Segment.content? (segment : Segment) : Option (TokenKind × String × Value) :=
  (segment.token? 0).map Token.content

/-- The content does not depend on the line. -/
theorem Segment.map_content_token? (segment : Segment) (line : Nat) :
    (segment.token? line).map Token.content = segment.content? := by
  obtain ⟨shape, text⟩ := segment
  cases shape <;> rfl

theorem map_content_bodyOf (text : List Char) :
    (bodyOf text).map Token.content = (cut text).filterMap Segment.content? := by
  conv_rhs => rw [← map_fst_placeFrom 1 (cut text), List.filterMap_map]
  rw [bodyOf, List.map_filterMap]
  exact List.filterMap_congr fun placed _ => placed.1.map_content_token? placed.2

/-- Nothing is complained about if no segment is. -/
theorem diagnostics_eq_nil {text : List Char}
    (proper : ∀ segment ∈ cut text, segment.shape.complaint? = none) :
    (Scan.ofText text).diagnostics = [] := by
  rw [diagnostics_ofText]
  refine List.filterMap_eq_nil_iff.mpr fun placed member => ?_
  have isSegment : placed.1 ∈ cut text := by
    rw [← map_fst_placeFrom 1 (cut text)]
    exact List.mem_map_of_mem member
  rw [Segment.diagnostic?, proper _ isSegment, Option.map_none]

/-- The text is cut into tokens with these contents, and into gaps between them. -/
structure Holds (text : List Char) (contents : List (TokenKind × String × Value)) : Prop where
  contents : (cut text).filterMap Segment.content? = contents
  proper : ∀ segment ∈ cut text, segment.shape.complaint? = none

namespace Holds

variable {rest : List Char} {contents : List (TokenKind × String × Value)}

theorem nothing : Holds [] [] :=
  ⟨rfl, fun _ => nofun⟩

theorem token {kind : TokenKind} {literal : Value} {text : List Char}
    (piece : Piece (.token kind literal) text rest) (others : Holds rest contents) :
    Holds (text ++ rest) ((kind, String.ofList text, literal) :: contents) := by
  have split := (Fronts.piece piece).cut_append
  refine ⟨?_, ?_⟩
  · rw [split, ← others.contents]
    rfl
  · rw [split]
    exact List.forall_mem_cons.mpr ⟨rfl, others.proper⟩

theorem layout {gap : List Char} (layout : ∀ c ∈ gap, c ∈ [' ', '\t', '\r', '\n'])
    (others : Holds rest contents) : Holds (gap ++ rest) contents := by
  induction gap with
  | nil => exact others
  | cons c gap inductionHypothesis =>
      obtain ⟨first, later⟩ := List.forall_mem_cons.mp layout
      have behind := inductionHypothesis later
      have split : cut (c :: (gap ++ rest)) = ⟨.gap, [c]⟩ :: cut (gap ++ rest) :=
        (Fronts.piece (.layout first)).cut_append
      refine ⟨?_, ?_⟩
      · rw [List.cons_append, split, ← behind.contents]
        rfl
      · rw [List.cons_append, split]
        exact List.forall_mem_cons.mpr ⟨rfl, behind.proper⟩

end Holds

/-! ## Reading what was written -/

/-- A text of a language is the longest one at the end of a source. -/
theorem longest_at_end {language : List Char → Prop} {text : List Char}
    (belongs : language text) : Longest language text [] :=
  ⟨belongs, fun _ begins _ => List.prefix_nil.mp begins⟩

theorem isWord_spelling (keyword : Keyword) : IsWord keyword.spelling := by
  cases keyword <;> exact ⟨_, _, rfl, by decide, List.all_eq_true.mp (by decide)⟩

/-- A well-formed token is a piece of a source that ends behind it. -/
theorem piece_of_isWellFormed {token : Token} (wellFormed : token.IsWellFormed) :
    Piece (.token token.kind token.literal) token.lexeme.toList [] := by
  cases wellFormed with
  | symbol symbol =>
      rw [String.toList_ofList]
      exact .symbol (by simp)
  | keyword keyword =>
      rw [String.toList_ofList]
      exact .keyword (longest_at_end (isWord_spelling keyword))
  | identifier word noKeyword =>
      rw [String.toList_ofList]
      exact .identifier (longest_at_end word) noKeyword
  | number numeral =>
      rw [String.toList_ofList]
      exact .number numeral (longest_at_end ⟨_, _, numeral⟩)
  | string inside =>
      rw [String.toList_ofList]
      exact .string inside

theorem Written.holds {tokens : List Token} {text : List Char} (written : Written tokens text)
    (wellFormed : ∀ token ∈ tokens, token.IsWellFormed) :
    Holds text (tokens.map Token.content) := by
  induction written with
  | nothing => exact .nothing
  | single token =>
      have piece := piece_of_isWellFormed (wellFormed token List.mem_cons_self)
      have holds := Holds.token piece .nothing
      rwa [List.append_nil, String.ofList_toList] at holds
  | @cons token next tokens gap text layout _ inductionHypothesis =>
      obtain ⟨first, later⟩ := List.forall_mem_cons.mp wellFormed
      obtain ⟨c, gap, rfl⟩ := List.exists_cons_of_ne_nil layout.1
      have piece : Piece (.token token.kind token.literal) token.lexeme.toList
          (c :: gap ++ text) :=
        (piece_of_isWellFormed first).before_layout (layout.2 c List.mem_cons_self) (gap ++ text)
      have holds := Holds.token piece (.layout layout.2 (inductionHypothesis later))
      rwa [String.ofList_toList] at holds

/-- Well-formed tokens that are written out with layout between neighbours are read
again, and nothing else is, and there is nothing to complain about. -/
theorem ofText_written {tokens : List Token} {text : List Char}
    (wellFormed : ∀ token ∈ tokens, token.IsWellFormed) (written : Written tokens text) :
    (Scan.ofText text).tokens.map Token.content =
        tokens.map Token.content ++ [(.eof, "", .nil)] ∧
      (Scan.ofText text).diagnostics = [] := by
  have holds := written.holds wellFormed
  refine ⟨?_, diagnostics_eq_nil holds.proper⟩
  rw [tokens_ofText, List.map_append, map_content_bodyOf, holds.contents]
  rfl

/-- A slash and a star, a string over two lines that would open a comment, a name that
begins with a keyword and a numeral in front of a point. -/
def sampleTokens : List Token :=
  [⟨.symbol .slash, "/", .nil, 1⟩, ⟨.symbol .star, "*", .nil, 1⟩,
    ⟨.string, "\"/*\n\"", .string "/*\n", 1⟩, ⟨.identifier, "orchid", .nil, 1⟩,
    ⟨.number, "1.5", .number (Decimal.readNumeral ['1'] ['5']), 1⟩, ⟨.symbol .dot, ".", .nil, 1⟩]

/-- The tokens with layout between them. -/
def sampleWriting : List Char :=
  "/ *\t\"/*\n\"\r\norchid\n1.5 .".toList

theorem wellFormed_sampleTokens : ∀ token ∈ sampleTokens, token.IsWellFormed := by
  have isName : IsWord "orchid".toList :=
    ⟨'o', "rchid".toList, by decide, by decide, List.all_eq_true.mp (by decide)⟩
  have noKeyword : ∀ keyword : Keyword, keyword.spelling ≠ "orchid".toList := by
    intro keyword
    cases keyword <;> decide
  have numeral : Numeral ['1'] ['5'] "1.5".toList :=
    .decimal ⟨by decide, List.all_eq_true.mp (by decide)⟩
      ⟨by decide, List.all_eq_true.mp (by decide)⟩
  have inside : '"' ∉ "/*\n".toList := by decide
  simp only [sampleTokens, List.forall_mem_cons]
  exact ⟨.symbol .slash 1, .symbol .star 1, .string inside 1, .identifier isName noKeyword 1,
    .number numeral 1, .symbol .dot 1, fun _ => nofun⟩

/-- The tokens are read again from this text. -/
theorem ofText_written_sample :
    (∀ token ∈ sampleTokens, token.IsWellFormed) ∧ Written sampleTokens sampleWriting ∧
      (Scan.ofText sampleWriting).tokens.map Token.content =
        sampleTokens.map Token.content ++ [(.eof, "", .nil)] ∧
      (Scan.ofText sampleWriting).diagnostics = [] := by
  have written : Written sampleTokens sampleWriting := by
    have split : sampleWriting = "/".toList ++ ([' '] ++ ("*".toList ++ (['\t'] ++
        ("\"/*\n\"".toList ++ (['\r', '\n'] ++ ("orchid".toList ++ (['\n'] ++
          ("1.5".toList ++ ([' '] ++ ".".toList))))))))) := by decide
    rw [split]
    exact .cons (by decide) (.cons (by decide) (.cons (by decide) (.cons (by decide)
      (.cons (by decide) (.single _)))))
  exact ⟨wellFormed_sampleTokens, written, ofText_written wellFormed_sampleTokens written⟩

end Lexical

end TreeWalker
