import TreeWalker.Lexical.Scan
import TreeWalker.Proofs.Lexical.Recognition

/-!
# Lines are counted in line feeds

The scanner counts lines while it reads: where it skips layout, in a string and in a block
comment.  Nothing else holds a line feed, so the line on which a segment ends is that on which
it begins, and one more for each line feed in it.
-/

namespace TreeWalker.Lexical

/-- Number of line feeds in a text. -/
def lineFeeds (text : List Char) : Nat :=
  text.count '\n'

/-- Line on which a text ends. -/
def lastLine (text : List Char) : Nat :=
  1 + lineFeeds text

/-- Segments with the lines on which they end, when the first of them begins on
the given line. -/
def placeFrom (line : Nat) : List Segment → List (Segment × Nat)
  | [] => []
  | segment :: segments =>
    let lineAfter := line + lineFeeds segment.text
    (segment, lineAfter) :: placeFrom lineAfter segments

@[simp]
theorem lineFeeds_append (text more : List Char) :
    lineFeeds (text ++ more) = lineFeeds text + lineFeeds more :=
  List.count_append

theorem lineFeeds_cons (c : Char) (text : List Char) :
    lineFeeds (c :: text) = (if c = '\n' then 1 else 0) + lineFeeds text := by
  rw [lineFeeds, List.count_cons, Nat.add_comm, lineFeeds]
  simp only [beq_iff_eq]

theorem lineFeeds_eq_zero {text : List Char} (none : '\n' ∉ text) : lineFeeds text = 0 :=
  List.count_eq_zero.mpr none

variable {line : Nat} {text rest : List Char}

/-! ## Strings and comments -/

/-- Lines are counted up to the quote that closes a string. -/
theorem stringLine_append {body : List Char} (inside : '"' ∉ body) (line : Nat)
    (ends : ∀ c ∈ rest.head?, c = '"') :
    stringLine line (body ++ rest) = line + lineFeeds body := by
  induction body generalizing line with
  | nil =>
      cases rest with
      | nil => rfl
      | cons c rest =>
          rw [List.nil_append, stringLine, if_pos (ends c rfl)]
          rfl
  | cons c body inductionHypothesis =>
      obtain ⟨noQuote, others⟩ := not_or.mp (mt List.mem_cons.mpr inside)
      rw [List.cons_append, stringLine, if_neg fun same => noQuote same.symm,
        inductionHypothesis others, lineFeeds_cons]
      split <;> omega

theorem commentLine_character {c : Char} (noOpening : ¬ ['/', '*'] <+: c :: text)
    (noClosing : ¬ ['*', '/'] <+: c :: text) (inner line : Nat) :
    commentLine inner line (c :: text) =
      commentLine inner (if c = '\n' then line + 1 else line) text := by
  rw [commentLine]
  · rintro text rfl rfl
    exact noOpening ⟨text, rfl⟩
  · rintro text rfl rfl
    exact noClosing ⟨text, rfl⟩

/-- Lines are counted up to the closing of a comment, and from there on in the comment
around it. -/
theorem Closes.commentLine (closes : Closes text rest) :
    ∃ body, text = body ++ rest ∧
      (∀ line, commentLine 0 line text = line + lineFeeds body) ∧
      ∀ inner line, commentLine (inner + 1) line text =
        commentLine inner (line + lineFeeds body) rest := by
  induction closes with
  | closing => exact ⟨['*', '/'], rfl, fun _ => rfl, fun _ _ => rfl⟩
  | nested _ _ innerHypothesis outerHypothesis =>
      obtain ⟨body, rfl, _, innerMore⟩ := innerHypothesis
      obtain ⟨body', rfl, outerLast, outerMore⟩ := outerHypothesis
      have feeds : lineFeeds ('/' :: '*' :: (body ++ body')) =
          lineFeeds body + lineFeeds body' := by
        simp [lineFeeds_cons]
      refine ⟨'/' :: '*' :: (body ++ body'), by simp, fun line => ?_, fun inner line => ?_⟩
      · rw [Lexical.commentLine, innerMore, outerLast, feeds, Nat.add_assoc]
      · rw [Lexical.commentLine, innerMore, outerMore, feeds, Nat.add_assoc]
  | @character c _ _ noOpening noClosing _ inductionHypothesis =>
      obtain ⟨body, rfl, last, more⟩ := inductionHypothesis
      have feeds (line : Nat) : (if c = '\n' then line + 1 else line) + lineFeeds body =
          line + lineFeeds (c :: body) := by
        rw [lineFeeds_cons]
        split <;> omega
      refine ⟨c :: body, rfl, fun line => ?_, fun inner line => ?_⟩
      · rw [commentLine_character noOpening noClosing, last, feeds]
      · rw [commentLine_character noOpening noClosing, more, feeds]

/-- Lines are counted up to the end of a comment that is not closed. -/
theorem commentLine_unclosed {inner read : Nat}
    (unclosed : commentLength? inner read text = none) (line : Nat) :
    commentLine inner line text = line + lineFeeds text := by
  fun_induction commentLength? inner read text generalizing line with
  | case1 => rfl
  | case2 inner read text inductionHypothesis =>
      rw [commentLine, inductionHypothesis unclosed]
      simp [lineFeeds_cons]
  | case3 => cases unclosed
  | case4 read text inner inductionHypothesis =>
      rw [commentLine, inductionHypothesis unclosed]
      simp [lineFeeds_cons]
  | case5 inner read c text noOpening noClosing inductionHypothesis =>
      rw [commentLine, inductionHypothesis unclosed, lineFeeds_cons]
      · split <;> omega
      · exact noOpening
      · exact noClosing

/-! ## Segments -/

/-- A segment that is neither a string nor begins with a slash holds no line that is counted
but by its first character. -/
theorem lineAfter_of_ne {c : Char} {tail : List Char} (noQuote : c ≠ '"') (noSlash : c ≠ '/')
    (noFeed : '\n' ∉ c :: tail) : lineAfter line c text = line + lineFeeds (c :: tail) := by
  rw [lineFeeds_eq_zero noFeed]
  unfold lineAfter
  split
  · exact absurd List.mem_cons_self noFeed
  · contradiction
  · contradiction
  · rfl

theorem IsNumeral.noFeed (numeral : IsNumeral text) : '\n' ∉ text := by
  obtain ⟨whole, fraction, numeral⟩ := numeral
  cases numeral with
  | whole digits => exact fun member => Bool.noConfusion (digits.2 _ member)
  | decimal digits more =>
      intro member
      rcases List.mem_append.mp member with before | after
      · exact Bool.noConfusion (digits.2 _ before)
      · rcases List.mem_cons.mp after with point | after
        · exact absurd point (by decide)
        · exact Bool.noConfusion (more.2 _ after)

theorem IsWord.noFeed (word : IsWord text) : '\n' ∉ text :=
  fun member => Bool.noConfusion (word.parts _ member)

/-- A symbol is read without counting, unless a comment begins with it. -/
theorem lineAfter_symbol {symbol : Symbol} {c : Char} {tail : List Char}
    (alone : ∀ d ∈ rest.head?, ¬ symbol.goesOn d) (spelled : symbol.spelling = c :: tail)
    (line : Nat) : lineAfter line c (tail ++ rest) = line + lineFeeds (c :: tail) := by
  by_cases isSlash : symbol = .slash
  · subst isSlash
    obtain ⟨rfl, rfl⟩ := List.cons.inj spelled
    rw [lineAfter]
    · rfl
    · rintro ⟨⟩
    · rintro ⟨⟩
    · rintro comment - rfl
      exact alone '*' rfl (.inr rfl)
  · obtain ⟨noQuote, noSlash, noFeed⟩ : c ≠ '"' ∧ c ≠ '/' ∧ '\n' ∉ c :: tail := by
      cases symbol <;> cases spelled <;> first | contradiction | decide
    exact lineAfter_of_ne noQuote noSlash noFeed

/-- The line on which a piece ends is counted by the rule that reads it. -/
theorem Piece.lineAfter {shape : Shape} {c : Char} {tail : List Char}
    (piece : Piece shape (c :: tail) rest) (line : Nat) :
    lineAfter line c (tail ++ rest) = line + lineFeeds (c :: tail) := by
  generalize whole : c :: tail = text at piece
  have ofWord (word : IsWord text) :
      Lexical.lineAfter line c (tail ++ rest) = line + lineFeeds text := by
    rcases id word with ⟨d, letters, same, starts, _⟩
    obtain ⟨rfl, _⟩ := List.cons.inj (whole.trans same)
    obtain ⟨_, noQuote, noSlash⟩ := isLayout_of_class (.inr starts)
    exact whole ▸ lineAfter_of_ne noQuote noSlash (whole ▸ word.noFeed)
  cases piece with
  | symbol alone => exact whole ▸ lineAfter_symbol alone whole.symm line
  | number _ longest =>
      rcases longest.belongs.head with ⟨d, digits, same, isDigit⟩
      obtain ⟨rfl, _⟩ := List.cons.inj (whole.trans same)
      obtain ⟨_, noQuote, noSlash⟩ := isLayout_of_class (.inl isDigit)
      exact whole ▸ lineAfter_of_ne noQuote noSlash (whole ▸ longest.belongs.noFeed)
  | keyword longest | identifier longest => exact ofWord longest.belongs
  | string inside =>
      rcases List.cons.inj whole with ⟨rfl, rfl⟩
      rw [List.append_assoc]
      have closed : ∀ c ∈ (['"'] ++ rest).head?, c = '"' := by simp
      refine (stringLine_append inside line closed).trans ?_
      simp [lineFeeds]
  | layout layout =>
      rcases List.cons.inj whole with ⟨rfl, rfl⟩
      simp only [List.mem_cons, List.not_mem_nil, or_false] at layout
      rcases layout with rfl | rfl | rfl | rfl <;> rfl
  | lineComment inside =>
      rcases List.cons.inj whole with ⟨rfl, rfl⟩
      rw [lineFeeds_eq_zero (by simpa using inside)]
      rfl
  | blockComment closes =>
      rcases List.cons.inj whole with ⟨rfl, rfl⟩
      obtain ⟨body, split, last, _⟩ := closes.commentLine
      obtain rfl := List.append_cancel_right split
      refine (last line).trans ?_
      simp [lineFeeds_cons]
  | openString inside =>
      rcases List.cons.inj whole with ⟨rfl, rfl⟩
      refine (stringLine_append inside line (by simp)).trans ?_
      simp [lineFeeds_cons]
  | openComment unclosed =>
      rcases List.cons.inj whole with ⟨rfl, rfl⟩
      rw [List.append_nil]
      refine (commentLine_unclosed (commentLength?_eq_none_iff.mpr unclosed) line).trans ?_
      simp [lineFeeds_cons]

theorem Fronts.lineAfter {segment : Segment} (fronts : Fronts segment rest) {c : Char}
    (whole : segment.text ++ rest = c :: text) (line : Nat) :
    lineAfter line c text = line + lineFeeds segment.text := by
  cases fronts with
  | piece piece =>
      rcases piece.head with ⟨d, tail, rfl, _⟩
      obtain ⟨rfl, rfl⟩ := List.cons.inj whole
      exact piece.lineAfter line
  | @unexpected d _ nothing =>
      obtain ⟨rfl, rfl⟩ := List.cons.inj whole
      have noStart := beginsNothing_iff.mp nothing
      simp only [Starts, not_or, Bool.not_eq_true] at noStart
      obtain ⟨noLayout, noQuote, _, _, noSymbol⟩ := noStart
      refine lineAfter_of_ne noQuote (fun same => noSymbol ⟨.slash, by rw [same]; rfl⟩) ?_
      rw [List.mem_singleton]
      rintro rfl
      cases noLayout

/-- The line on which the first segment of a text ends. -/
theorem lineAfter_eq (line : Nat) (c : Char) (text : List Char) :
    lineAfter line c text = line + lineFeeds (Lead.of c text).1.text :=
  (Lead.fronts c text).lineAfter (Lead.of_append c text) line

/-! ## Whole texts -/

theorem placeAtMost_eq {fuel : Nat} (enough : text.length ≤ fuel) (line : Nat) :
    placeAtMost fuel line text =
      (placeFrom line (cutAtMost fuel text), line + lineFeeds text) := by
  induction fuel generalizing line text with
  | zero =>
      obtain rfl := List.length_eq_zero_iff.mp (Nat.le_zero.mp enough)
      rfl
  | succ fuel inductionHypothesis =>
      cases text with
      | nil => rfl
      | cons c text =>
          have shorter := Lead.length_of_snd_le c text
          have feeds : lineFeeds (c :: text) =
              lineFeeds (Lead.of c text).1.text + lineFeeds (Lead.of c text).2 := by
            rw [← lineFeeds_append, Lead.of_append]
          rw [List.length_cons] at enough
          simp only [placeAtMost, cutAtMost, placeFrom]
          rw [inductionHypothesis (by omega), lineAfter_eq, feeds, Nat.add_assoc]

/-- The scanner places the segments of a text on the lines on which they end, and the end
of the text on its last line. -/
theorem place_eq (text : List Char) : place text = (placeFrom 1 (cut text), lastLine text) :=
  placeAtMost_eq (Nat.le_refl text.length) 1

/-- What the scanner returns is read off the segments on their lines. -/
theorem ofText_eq (text : List Char) :
    Scan.ofText text =
      { tokens :=
          (placeFrom 1 (cut text)).filterMap (fun segment => segment.1.token? segment.2) ++
            [endToken (lastLine text)]
        diagnostics :=
          (placeFrom 1 (cut text)).filterMap fun segment => segment.1.diagnostic? segment.2 } := by
  rw [Scan.ofText, place_eq]

end TreeWalker.Lexical
