import Mathlib.Data.List.Infix
import TreeWalker.Proofs.Lexical.Joining

/-!
# Block comments as a language

A block comment is its opening, then items, then its closing.  Where the text opens a
comment the item is that comment, and otherwise it is a character that does not begin
the closing.  So the pairs that open and close are read from left to right and never
overlap, and which texts are comments is said without any text after them.

The scanner passes a comment whatever follows it, and gives what it gives for the text
behind it, so many lines further down.  A source that opens a comment but does not
begin with one holds nothing else.
-/

namespace TreeWalker.Lexical

/-- What stands behind the opening of a comment: its items, and its closing. -/
inductive IsInside : List Char → Prop where
  | closing : IsInside ['*', '/']
  | nested {inner text : List Char} (comment : IsInside inner) (others : IsInside text) :
    IsInside ('/' :: '*' :: (inner ++ text))
  | character {c : Char} {text : List Char} (noOpening : ¬ ['/', '*'] <+: c :: text)
    (noClosing : ¬ ['*', '/'] <+: c :: text) (others : IsInside text) : IsInside (c :: text)

/-- A block comment, from its opening to its closing. -/
def IsComment (text : List Char) : Prop :=
  ∃ inside, text = '/' :: '*' :: inside ∧ IsInside inside

/-! ## Where comments are closed -/

/-- The inside of a comment is closed at its end. -/
theorem IsInside.closes {body : List Char} (inside : IsInside body) : Closes body [] := by
  induction inside with
  | closing => exact .closing
  | @nested inner text _ _ innerHypothesis othersHypothesis =>
      exact .nested (innerHypothesis.append text) othersHypothesis
  | character noOpening noClosing _ inductionHypothesis =>
      exact .character noOpening noClosing inductionHypothesis

/-- A text that closes a comment begins with the inside of one. -/
theorem Closes.exists_isInside {text rest : List Char} (closes : Closes text rest) :
    ∃ body, text = body ++ rest ∧ IsInside body := by
  induction closes with
  | closing => exact ⟨['*', '/'], rfl, .closing⟩
  | nested _ _ innerHypothesis outerHypothesis =>
      obtain ⟨inner, rfl, isInner⟩ := innerHypothesis
      obtain ⟨outer, rfl, isOuter⟩ := outerHypothesis
      exact ⟨'/' :: '*' :: (inner ++ outer), by simp, .nested isInner isOuter⟩
  | @character c text rest noOpening noClosing _ inductionHypothesis =>
      obtain ⟨body, rfl, isBody⟩ := inductionHypothesis
      have begins : c :: body <+: c :: (body ++ rest) := List.prefix_append (c :: body) rest
      exact ⟨c :: body, rfl, .character (fun opening => noOpening (opening.trans begins))
        (fun closing => noClosing (closing.trans begins)) isBody⟩

/-- The counting scanner tells whether a text is the inside of a comment. -/
theorem isInside_iff {body : List Char} :
    IsInside body ↔ commentLength? 0 0 body = some body.length := by
  rw [commentLength?_eq_some_iff]
  constructor
  · intro inside
    exact ⟨body, [], by simp, inside.closes, rfl⟩
  · rintro ⟨front, rest, split, closes, length⟩
    obtain ⟨inside, same, isInside⟩ := closes.exists_isInside
    have nothingLeft : rest = [] := by
      have lengths := congrArg List.length split
      rw [List.length_append, length] at lengths
      exact List.length_eq_zero_iff.mp (by omega)
    rw [nothingLeft, List.append_nil] at same
    rwa [same]

instance (body : List Char) : Decidable (IsInside body) :=
  decidable_of_iff _ isInside_iff.symm

theorem isComment_iff {text : List Char} :
    IsComment text ↔ ['/', '*'] <+: text ∧ IsInside (text.drop 2) := by
  constructor
  · rintro ⟨inside, rfl, isInside⟩
    exact ⟨⟨inside, rfl⟩, isInside⟩
  · rintro ⟨⟨inside, rfl⟩, isInside⟩
    exact ⟨inside, rfl, isInside⟩

instance (text : List Char) : Decidable (IsComment text) :=
  decidable_of_iff _ isComment_iff.symm

/-! ## Scanning comments -/

/-- A gap in front of a text moves what the text gives down by its line feeds. -/
theorem ofText_gap {gap rest : List Char} (fronts : Fronts ⟨.gap, gap⟩ rest) :
    Scan.ofText (gap ++ rest) = (Scan.ofText rest).movedBy (gap.count '\n') := by
  have placed : placeFrom 1 (cut (gap ++ rest)) =
      (⟨.gap, gap⟩, 1 + lineFeeds gap) :: placeFrom (1 + lineFeeds gap) (cut rest) := by
    rw [← placeFrom, ← fronts.cut_append]
  have ending : lastLine (gap ++ rest) = lastLine rest + lineFeeds gap := by
    rw [lastLine_append]
    exact Nat.add_right_comm 1 _ _
  have body : bodyOf (gap ++ rest) = (bodyOf rest).map (Token.movedBy (lineFeeds gap)) := by
    rw [bodyOf, placed]
    exact filterMap_placeFrom_add Segment.token?_add 1 (lineFeeds gap) (cut rest)
  have diagnostics : (Scan.ofText (gap ++ rest)).diagnostics =
      (Scan.ofText rest).diagnostics.map (Diagnostic.movedBy (lineFeeds gap)) := by
    rw [diagnostics_ofText, diagnostics_ofText, placed]
    exact filterMap_placeFrom_add Segment.diagnostic?_add 1 (lineFeeds gap) (cut rest)
  have tokens : (Scan.ofText (gap ++ rest)).tokens =
      (Scan.ofText rest).tokens.map (Token.movedBy (lineFeeds gap)) := by
    rw [tokens_ofText, tokens_ofText, body, ending, endToken_add, List.map_append]
    rfl
  exact congrArg₂ Scan.mk tokens diagnostics

/-- A source that opens a comment and never closes it is a single segment. -/
theorem ofText_unclosed {body : List Char} (unclosed : ∀ rest, ¬ Closes body rest) :
    Scan.ofText ('/' :: '*' :: body) =
      ⟨[endToken (lastLine ('/' :: '*' :: body))],
        [⟨.scan, lastLine ('/' :: '*' :: body), "", "Unterminated block comment."⟩]⟩ := by
  have segments := (Fronts.piece (.openComment unclosed)).cut_append
  rw [List.append_nil, cut_nil] at segments
  rw [ofText_eq, segments]
  rfl

/-- A comment in front of a text changes nothing but the lines, and a source that
opens a comment but begins with none gives a single complaint. -/
theorem ofText_comment :
    (∀ comment, IsComment comment → ∀ text,
      Scan.ofText (comment ++ text) = (Scan.ofText text).movedBy (comment.count '\n')) ∧
    ∀ source, ['/', '*'] <+: source → (∀ front, front <+: source → ¬ IsComment front) →
      Scan.ofText source =
        ⟨[⟨.eof, "", .nil, 1 + source.count '\n'⟩],
          [⟨.scan, 1 + source.count '\n', "", "Unterminated block comment."⟩]⟩ := by
  constructor
  · rintro comment ⟨inside, rfl, isInside⟩ text
    exact ofText_gap (.piece (.blockComment (isInside.closes.append text)))
  · rintro source ⟨body, rfl⟩ noComment
    refine ofText_unclosed fun rest closes => ?_
    obtain ⟨inside, rfl, isInside⟩ := closes.exists_isInside
    exact noComment ('/' :: '*' :: inside) ⟨rest, rfl⟩ ⟨inside, rfl, isInside⟩

/-- A comment with a slash, a comment over two lines and an empty one inside. -/
def sampleComment : List Char :=
  "/*/ /*\n*//**/ */".toList

/-- A comment that is not closed: where it seems to be, the inner opening goes on. -/
def sampleUnclosed : List Char :=
  "/*/*/\n/".toList

/-- What follows the comment is read behind it, on the second line, and nothing of the other
source is. -/
theorem ofText_comment_sample :
    IsComment sampleComment ∧
      Scan.ofText (sampleComment ++ "*/;".toList) =
        ⟨[⟨.symbol .star, "*", .nil, 2⟩, ⟨.symbol .slash, "/", .nil, 2⟩,
          ⟨.symbol .semicolon, ";", .nil, 2⟩, ⟨.eof, "", .nil, 2⟩], []⟩ ∧
      ['/', '*'] <+: sampleUnclosed ∧
      (∀ front, front <+: sampleUnclosed → ¬ IsComment front) ∧
      Scan.ofText sampleUnclosed =
        ⟨[⟨.eof, "", .nil, 2⟩], [⟨.scan, 2, "", "Unterminated block comment."⟩]⟩ := by
  have isComment : IsComment sampleComment := by decide
  have opens : ['/', '*'] <+: sampleUnclosed := by decide
  have noComment : ∀ front, front <+: sampleUnclosed → ¬ IsComment front := by
    have fronts : ∀ front ∈ sampleUnclosed.inits, ¬ IsComment front := by decide
    exact fun front begins => fronts front ((List.mem_inits _ _).mpr begins)
  have behind : (Scan.ofText "*/;".toList).movedBy (sampleComment.count '\n') =
      ⟨[⟨.symbol .star, "*", .nil, 2⟩, ⟨.symbol .slash, "/", .nil, 2⟩,
        ⟨.symbol .semicolon, ";", .nil, 2⟩, ⟨.eof, "", .nil, 2⟩], []⟩ := by
    decide +kernel
  have passed := ofText_comment.1 sampleComment isComment "*/;".toList
  exact ⟨isComment, passed.trans behind, opens, noComment,
    ofText_comment.2 sampleUnclosed opens noComment⟩

end TreeWalker.Lexical
