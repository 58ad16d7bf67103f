import TreeWalker.Proofs.Lexical.Decomposition

/-!
# Scanning across a line feed

Two texts with a line feed between them are cut as each of them is on its own.
No token goes on over a line feed but a string, and no gap but a block comment, so
this fails only where the first text leaves one of these open.  The tokens and
complaints of the second text are those that it has on its own, so many lines
further down as the first text has.
-/

namespace TreeWalker

/-- What a token is, whatever line it is on. -/
def Token.content (token : Token) : TokenKind × String × Value :=
  (token.kind, token.lexeme, token.literal)

/-- The token, so many lines further down. -/
def Token.movedBy (lines : Nat) (token : Token) : Token :=
  { token with line := token.line + lines }

/-- The diagnostic, so many lines further down. -/
def Diagnostic.movedBy (lines : Nat) (diagnostic : Diagnostic) : Diagnostic :=
  { diagnostic with line := diagnostic.line + lines }

namespace Lexical

/-! ## Tokens in front of layout -/

section Layout

variable {c : Char} {text : List Char}

theorem goesOn_layout (symbol : Symbol) (layout : c ∈ [' ', '\t', '\r', '\n']) :
    ¬ symbol.goesOn c := by
  simp only [List.mem_cons, List.not_mem_nil, or_false] at layout
  rcases layout with rfl | rfl | rfl | rfl <;> cases symbol <;> simp [Symbol.goesOn]

/-- Layout stands in no number and in no word. -/
theorem outside_of_layout (layout : c ∈ [' ', '\t', '\r', '\n']) :
    c.isDigit = false ∧ c ≠ '.' ∧ isWordPart c = false := by
  simp only [List.mem_cons, List.not_mem_nil, or_false] at layout
  rcases layout with rfl | rfl | rfl | rfl <;> decide

theorem IsDigits.no_layout (digits : IsDigits text) (layout : c ∈ [' ', '\t', '\r', '\n']) :
    c ∉ text := by
  intro member
  have noDigit := (outside_of_layout layout).1
  rw [digits.2 c member] at noDigit
  cases noDigit

theorem IsNumeral.no_layout (numeral : IsNumeral text)
    (layout : c ∈ [' ', '\t', '\r', '\n']) : c ∉ text := by
  obtain ⟨whole, fraction, numeral⟩ := numeral
  cases numeral with
  | whole digits => exact digits.no_layout layout
  | decimal digits more =>
      simp [digits.no_layout layout, more.no_layout layout, (outside_of_layout layout).2.1]

theorem IsWord.no_layout (word : IsWord text) (layout : c ∈ [' ', '\t', '\r', '\n']) :
    c ∉ text := by
  intro member
  have noPart := (outside_of_layout layout).2.2
  rw [word.parts c member] at noPart
  cases noPart

/-- What is the longest before the end of a text is so before a character that its
language does not know. -/
theorem Longest.before {language : List Char → Prop} {rest : List Char}
    (longest : Longest language text rest) (outside : ∀ word, language word → c ∉ word)
    (more : List Char) : Longest language text (rest ++ c :: more) := by
  refine ⟨longest.belongs, fun front begins longer => longest.longest front ?_ longer⟩
  have within : c ∉ front := fun member =>
    outside _ longer (List.mem_append_right text member)
  obtain ⟨tail, split⟩ := begins
  rcases List.append_eq_append_iff.mp split with ⟨between, rfl, _⟩ | ⟨between, rfl, same⟩
  · exact List.prefix_append front between
  · cases between with
    | nil => simp
    | cons c between =>
        rcases List.cons.inj same with ⟨rfl, _⟩
        simp at within

/-- A token before the end of a text is the same token before layout. -/
theorem Piece.before_layout {kind : TokenKind} {literal : Value} {rest : List Char}
    (piece : Piece (.token kind literal) text rest) (layout : c ∈ [' ', '\t', '\r', '\n'])
    (more : List Char) : Piece (.token kind literal) text (rest ++ c :: more) := by
  cases piece with
  | @symbol symbol _ alone =>
      refine .symbol ?_
      cases rest with
      | nil =>
          rintro _ ⟨⟩
          exact goesOn_layout symbol layout
      | cons d rest => exact alone
  | number numeral longest =>
      exact .number numeral (longest.before (fun _ numeral => numeral.no_layout layout) more)
  | keyword longest =>
      exact .keyword (longest.before (fun _ word => word.no_layout layout) more)
  | identifier longest noKeyword =>
      exact .identifier (longest.before (fun _ word => word.no_layout layout) more) noKeyword
  | string inside => exact .string inside

end Layout

/-! ## Segments in front of a line feed -/

/-- A comment that is closed is closed whatever follows. -/
theorem Closes.append {text rest : List Char} (closes : Closes text rest) (more : List Char) :
    Closes (text ++ more) (rest ++ more) := by
  induction closes with
  | closing => exact .closing
  | nested _ _ innerHypothesis outerHypothesis => exact .nested innerHypothesis outerHypothesis
  | @character c text rest noOpening noClosing outer inductionHypothesis =>
      obtain ⟨d, tail, rfl⟩ : ∃ d tail, text = d :: tail := by
        cases outer <;> exact ⟨_, _, rfl⟩
      refine .character ?_ ?_ inductionHypothesis
      · simpa using noOpening
      · simpa using noClosing

/-- A shape that only the end of a source gives to a segment. -/
def Shape.isOpen : Shape → Bool
  | openString | openComment => true
  | _ => false

theorem Piece.before_lineFeed {shape : Shape} {text rest : List Char}
    (piece : Piece shape text rest) (closed : shape.isOpen = false) (more : List Char) :
    Piece shape text (rest ++ '\n' :: more) := by
  cases shape with
  | token kind literal => exact piece.before_layout (by simp) more
  | gap =>
      cases piece with
      | layout layout => exact .layout layout
      | lineComment inside ends =>
          refine .lineComment inside ?_
          cases rest with
          | nil =>
              rintro c ⟨⟩
              rfl
          | cons c rest => exact ends
      | blockComment closes =>
          refine .blockComment ?_
          rw [← List.append_assoc]
          exact closes.append _
  | unexpected => cases piece
  | openString | openComment => cases closed

theorem Fronts.before_lineFeed {segment : Segment} {rest : List Char}
    (fronts : Fronts segment rest) (closed : segment.shape.isOpen = false) (more : List Char) :
    Fronts segment (rest ++ '\n' :: more) := by
  cases fronts with
  | piece piece => exact .piece (piece.before_lineFeed closed more)
  | unexpected nothing => exact .unexpected nothing

/-! ## Two texts -/

/-- A line feed on its own. -/
def lineFeed : Segment :=
  ⟨.gap, ['\n']⟩

/-- The text leaves neither a string nor a comment open. -/
def IsClosed (text : List Char) : Prop :=
  ∀ segment ∈ cut text, segment.shape.isOpen = false

theorem Decomposes.join {segments others : List Segment} {text more : List Char}
    (decomposes : Decomposes segments text)
    (closed : ∀ segment ∈ segments, segment.shape.isOpen = false)
    (decomposesMore : Decomposes others more) :
    Decomposes (segments ++ lineFeed :: others) (text ++ '\n' :: more) := by
  induction decomposes with
  | nil =>
      have front : Fronts lineFeed more := .piece (.layout (by simp))
      exact .cons front decomposesMore
  | @cons segment segments rest fronts _ inductionHypothesis =>
      have others := inductionHypothesis fun _ member => closed _ (List.mem_cons_of_mem _ member)
      have front := fronts.before_lineFeed (closed _ List.mem_cons_self) more
      rw [List.append_assoc]
      exact .cons front others

/-- The segments of two texts with a line feed between them. -/
theorem cut_join {text : List Char} (closed : IsClosed text) (more : List Char) :
    cut (text ++ '\n' :: more) = cut text ++ lineFeed :: cut more :=
  ((decomposes_cut text).join closed (decomposes_cut more)).eq_cut.symm

theorem placeFrom_append (line : Nat) (segments more : List Segment) :
    placeFrom line (segments ++ more) =
      placeFrom line segments ++
        placeFrom (line + lineFeeds (segments.flatMap Segment.text)) more := by
  induction segments generalizing line with
  | nil => rfl
  | cons segment segments inductionHypothesis =>
      rw [List.cons_append, placeFrom, placeFrom, inductionHypothesis, List.flatMap_cons,
        lineFeeds_append, Nat.add_assoc, List.cons_append]

theorem placeFrom_add (line lines : Nat) (segments : List Segment) :
    placeFrom (line + lines) segments =
      (placeFrom line segments).map fun placed => (placed.1, placed.2 + lines) := by
  induction segments generalizing line with
  | nil => rfl
  | cons segment segments inductionHypothesis =>
      rw [placeFrom, placeFrom, List.map_cons, Nat.add_right_comm, inductionHypothesis]

/-- The segments of two texts with the lines on which they end. -/
theorem placeFrom_join {text : List Char} (closed : IsClosed text) (more : List Char) :
    placeFrom 1 (cut (text ++ '\n' :: more)) =
      placeFrom 1 (cut text) ++
        (lineFeed, 1 + lastLine text) :: placeFrom (1 + lastLine text) (cut more) := by
  have start : 1 + lineFeeds text + lineFeeds lineFeed.text = 1 + lastLine text :=
    Nat.add_comm (lastLine text) 1
  rw [cut_join closed, placeFrom_append, flatMap_text_cut, placeFrom, start]

theorem Segment.token?_add (segment : Segment) (line lines : Nat) :
    segment.token? (line + lines) = (segment.token? line).map (Token.movedBy lines) := by
  obtain ⟨shape, text⟩ := segment
  cases shape with
  | token => simp [Segment.token?, Token.movedBy]
  | _ => rfl

theorem Segment.diagnostic?_add (segment : Segment) (line lines : Nat) :
    segment.diagnostic? (line + lines) =
      (segment.diagnostic? line).map (Diagnostic.movedBy lines) := by
  obtain ⟨shape, text⟩ := segment
  cases shape <;> simp [Segment.diagnostic?, Shape.complaint?, Diagnostic.movedBy]

section Reading

variable {α : Type} {read : Segment → Nat → Option α} {moved : Nat → α → α}

/-- What is read off segments that are placed further down, if it moves with the
lines. -/
theorem filterMap_placeFrom_add
    (moves : ∀ segment line lines,
      read segment (line + lines) = (read segment line).map (moved lines))
    (line lines : Nat) (segments : List Segment) :
    (placeFrom (line + lines) segments).filterMap (fun placed => read placed.1 placed.2) =
      ((placeFrom line segments).filterMap fun placed => read placed.1 placed.2).map
        (moved lines) := by
  rw [placeFrom_add, List.filterMap_map, List.map_filterMap]
  exact List.filterMap_congr fun placed _ => moves placed.1 placed.2 lines

/-- What is read off two texts with a line feed between them, if it moves with the
lines. -/
theorem filterMap_join
    (moves : ∀ segment line lines,
      read segment (line + lines) = (read segment line).map (moved lines))
    (skips : ∀ line, read lineFeed line = none) {text : List Char} (closed : IsClosed text)
    (more : List Char) :
    (placeFrom 1 (cut (text ++ '\n' :: more))).filterMap (fun placed => read placed.1 placed.2) =
      (placeFrom 1 (cut text)).filterMap (fun placed => read placed.1 placed.2) ++
        ((placeFrom 1 (cut more)).filterMap fun placed => read placed.1 placed.2).map
          (moved (lastLine text)) := by
  rw [placeFrom_join closed, List.filterMap_append, List.filterMap_cons, skips,
    filterMap_placeFrom_add moves]

end Reading

/-- The tokens of two texts with a line feed between them. -/
theorem bodyOf_join {text : List Char} (closed : IsClosed text) (more : List Char) :
    bodyOf (text ++ '\n' :: more) =
      bodyOf text ++ (bodyOf more).map (Token.movedBy (lastLine text)) :=
  filterMap_join Segment.token?_add (fun _ => rfl) closed more

/-- What is wrong with two texts with a line feed between them. -/
theorem diagnostics_join {text : List Char} (closed : IsClosed text) (more : List Char) :
    (Scan.ofText (text ++ '\n' :: more)).diagnostics =
      (Scan.ofText text).diagnostics ++
        (Scan.ofText more).diagnostics.map (Diagnostic.movedBy (lastLine text)) := by
  simp only [diagnostics_ofText]
  exact filterMap_join Segment.diagnostic?_add (fun _ => rfl) closed more

@[simp]
theorem lastLine_join (text more : List Char) :
    lastLine (text ++ '\n' :: more) = lastLine text + lastLine more := by
  simp only [lastLine, lineFeeds_append]
  change 1 + (lineFeeds text + (List.count '\n' ('\n' :: more))) = _
  rw [List.count_cons_self]
  change _ = _ + (1 + List.count '\n' more)
  omega

/-! ## Texts that leave nothing open -/

/-- Every segment that may not be there is complained about. -/
theorem exists_diagnostic {text : List Char} {segment : Segment} {message : String}
    (member : segment ∈ cut text) (complaint : segment.shape.complaint? = some message) :
    ∃ diagnostic ∈ (Scan.ofText text).diagnostics, diagnostic.message = message := by
  rw [← map_fst_placeFrom 1 (cut text)] at member
  rw [diagnostics_ofText]
  obtain ⟨⟨_, line⟩, placed, rfl⟩ := List.mem_map.mp member
  refine ⟨⟨.scan, line, "", message⟩, List.mem_filterMap.mpr ⟨_, placed, ?_⟩, rfl⟩
  simp [Segment.diagnostic?, complaint]

/-- A text leaves nothing open if none of the complaints is about that. -/
theorem isClosed_of_messages {text : List Char}
    (closed : ∀ diagnostic ∈ (Scan.ofText text).diagnostics,
      diagnostic.message ≠ "Unterminated string." ∧
        diagnostic.message ≠ "Unterminated block comment.") : IsClosed text := by
  intro segment member
  cases shape : segment.shape with
  | openString =>
      rcases exists_diagnostic member (by rw [shape]; rfl) with ⟨diagnostic, listed, message⟩
      exact absurd message (closed diagnostic listed).1
  | openComment =>
      rcases exists_diagnostic member (by rw [shape]; rfl) with ⟨diagnostic, listed, message⟩
      exact absurd message (closed diagnostic listed).2
  | _ => rfl

theorem isClosed_of_diagnostics {text : List Char} (clean : (Scan.ofText text).diagnostics = []) :
    IsClosed text :=
  isClosed_of_messages (by rw [clean]; exact fun _ => nofun)

/-! ## Two scans -/

namespace Scan

/-- The scan, so many lines further down. -/
def movedBy (lines : Nat) (scan : Scan) : Scan :=
  ⟨scan.tokens.map (Token.movedBy lines), scan.diagnostics.map (Diagnostic.movedBy lines)⟩

/-- A scan that goes on as another one where its source ends. -/
def followedBy (scan later : Scan) : Scan :=
  ⟨scan.tokens.dropLast ++ later.tokens, scan.diagnostics ++ later.diagnostics⟩

end Scan

theorem endToken_add (line lines : Nat) :
    endToken (line + lines) = (endToken line).movedBy lines :=
  rfl

/-- Two texts with a line feed between them are scanned as the first one and then as
the second one, so many lines further down, if the first one leaves nothing open. -/
theorem ofText_join {text : List Char}
    (closed : ∀ diagnostic ∈ (Scan.ofText text).diagnostics,
      diagnostic.message ≠ "Unterminated string." ∧
        diagnostic.message ≠ "Unterminated block comment.") (more : List Char) :
    Scan.ofText (text ++ '\n' :: more) =
      (Scan.ofText text).followedBy ((Scan.ofText more).movedBy (1 + text.count '\n')) := by
  have nothingOpen := isClosed_of_messages closed
  have tokens : (Scan.ofText (text ++ '\n' :: more)).tokens =
      (Scan.ofText text).tokens.dropLast ++
        (Scan.ofText more).tokens.map (Token.movedBy (lastLine text)) := by
    simp only [tokens_ofText, List.dropLast_concat, List.map_append, List.map_cons, List.map_nil]
    rw [bodyOf_join nothingOpen, lastLine_join, Nat.add_comm, endToken_add, List.append_assoc]
  exact congrArg₂ Scan.mk tokens (diagnostics_join nothingOpen more)

/-- A string over two lines, a character that begins nothing, a numeral with a point
after it and half an operator. -/
def sampleFront : List Char :=
  "\"x\ny\" @ 1.=".toList

/-- The other half of the operator, and a comment that is left open. -/
def sampleBack : List Char :=
  "=5 /* ".toList

/-- Neither the numeral nor the operator goes on in the second text. -/
theorem ofText_join_sample :
    (∀ diagnostic ∈ (Scan.ofText sampleFront).diagnostics,
      diagnostic.message ≠ "Unterminated string." ∧
        diagnostic.message ≠ "Unterminated block comment.") ∧
      Scan.ofText (sampleFront ++ '\n' :: sampleBack) =
        (Scan.ofText sampleFront).followedBy
          ((Scan.ofText sampleBack).movedBy (1 + sampleFront.count '\n')) ∧
      ((Scan.ofText (sampleFront ++ '\n' :: sampleBack)).tokens.map fun token =>
          (token.kind, token.line)) =
        [(.string, 2), (.number, 2), (.symbol .dot, 2), (.symbol .equal, 2), (.symbol .equal, 3),
          (.number, 3), (.eof, 3)] ∧
      (Scan.ofText (sampleFront ++ '\n' :: sampleBack)).diagnostics =
        [⟨.scan, 2, "", "Unexpected character."⟩,
          ⟨.scan, 3, "", "Unterminated block comment."⟩] := by
  have closed : ∀ diagnostic ∈ (Scan.ofText sampleFront).diagnostics,
      diagnostic.message ≠ "Unterminated string." ∧
        diagnostic.message ≠ "Unterminated block comment." := by decide +kernel
  refine ⟨closed, ofText_join closed sampleBack, ?_, ?_⟩
  all_goals decide +kernel

end Lexical

end TreeWalker
