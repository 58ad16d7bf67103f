import TreeWalker.Proofs.Lexical.Lines

/-!
# The scanner decomposes its source

A source is cut into segments in just one way that the lexical rules allow, and
the scanner cuts it in that way.  What it returns is read off the segments in
their order: a token for each segment that is one, a complaint for each that may
not be there, and the token for the end.  Every line that is named is the one on
which the segment ends.
-/

namespace TreeWalker.Lexical

/-! ## One decomposition -/

/-- The segments that the scanner cuts are a decomposition. -/
theorem decomposes_cut (text : List Char) : Decomposes (cut text) text := by
  induction text using cut_induction with
  | nil => exact .nil
  | cons c text inductionHypothesis =>
      have whole := Lead.of_append c text
      rw [cut_cons]
      exact whole ▸ .cons (Lead.fronts c text) inductionHypothesis

/-- There is no other decomposition. -/
theorem Decomposes.eq_cut {segments : List Segment} {text : List Char}
    (decomposes : Decomposes segments text) : segments = cut text := by
  induction decomposes with
  | nil => rfl
  | @cons segment segments rest fronts _ inductionHypothesis =>
      obtain ⟨c, tail, same⟩ := List.exists_cons_of_ne_nil fronts.text_ne_nil
      have whole : segment.text ++ rest = c :: (tail ++ rest) := by rw [same, List.cons_append]
      have lead := fronts.lead whole
      rw [whole, cut_cons, lead, inductionHypothesis]

/-- Cutting a text cuts off a segment that may stand in front of it, and cuts the
rest. -/
theorem Fronts.cut_append {segment : Segment} {rest : List Char} (fronts : Fronts segment rest) :
    cut (segment.text ++ rest) = segment :: cut rest :=
  (Decomposes.cons fronts (decomposes_cut rest)).eq_cut.symm

/-! ## What is read off it -/

/-- What is said about a segment that may not be there. -/
inductive Complaint : Shape → String → Prop where
  | unexpected : Complaint .unexpected "Unexpected character."
  | openString : Complaint .openString "Unterminated string."
  | openComment : Complaint .openComment "Unterminated block comment."

/-- `Reads before segments tokens diagnostics`: after the text before them, the
segments give these tokens, with the one for the end, and these complaints. -/
inductive Reads : List Char → List Segment → List Token → List Diagnostic → Prop where
  | done {before : List Char} :
    Reads before [] [⟨.eof, "", .nil, lastLine before⟩] []
  | token {before text : List Char} {kind : TokenKind} {literal : Value}
    {segments : List Segment} {tokens : List Token} {diagnostics : List Diagnostic}
    (others : Reads (before ++ text) segments tokens diagnostics) :
    Reads before (⟨.token kind literal, text⟩ :: segments)
      (⟨kind, String.ofList text, literal, lastLine (before ++ text)⟩ :: tokens) diagnostics
  | gap {before text : List Char} {segments : List Segment} {tokens : List Token}
    {diagnostics : List Diagnostic}
    (others : Reads (before ++ text) segments tokens diagnostics) :
    Reads before (⟨.gap, text⟩ :: segments) tokens diagnostics
  | problem {before text : List Char} {shape : Shape} {message : String}
    {segments : List Segment} {tokens : List Token} {diagnostics : List Diagnostic}
    (complaint : Complaint shape message)
    (others : Reads (before ++ text) segments tokens diagnostics) :
    Reads before (⟨shape, text⟩ :: segments) tokens
      (⟨.scan, lastLine (before ++ text), "", message⟩ :: diagnostics)

theorem lastLine_append (before text : List Char) :
    lastLine (before ++ text) = lastLine before + lineFeeds text := by
  simp only [lastLine, lineFeeds_append, Nat.add_assoc]

theorem map_fst_placeFrom (line : Nat) (segments : List Segment) :
    (placeFrom line segments).map Prod.fst = segments := by
  induction segments generalizing line with
  | nil => rfl
  | cons segment segments inductionHypothesis =>
      rw [placeFrom, List.map_cons, inductionHypothesis]

/-- The segments placed on their lines give what is read off them. -/
theorem reads_placeFrom (before : List Char) (segments : List Segment) :
    Reads before segments
      ((placeFrom (lastLine before) segments).filterMap
          (fun segment => segment.1.token? segment.2) ++
        [endToken (lastLine (before ++ segments.flatMap Segment.text))])
      ((placeFrom (lastLine before) segments).filterMap
        fun segment => segment.1.diagnostic? segment.2) := by
  induction segments generalizing before with
  | nil =>
      rw [List.flatMap_nil, List.append_nil]
      exact .done
  | cons segment segments inductionHypothesis =>
      have others := inductionHypothesis (before ++ segment.text)
      rw [List.append_assoc, ← List.flatMap_cons] at others
      simp only [placeFrom, ← lastLine_append]
      obtain ⟨shape, text⟩ := segment
      cases shape with
      | token => exact .token others
      | gap => exact .gap others
      | unexpected => exact .problem .unexpected others
      | openString => exact .problem .openString others
      | openComment => exact .problem .openComment others

/-! ## The end of a source -/

/-- The tokens of a text, without the one for its end. -/
def bodyOf (text : List Char) : List Token :=
  (placeFrom 1 (cut text)).filterMap fun segment => segment.1.token? segment.2

/-- The tokens of a text are those of its segments, and the one for its end. -/
theorem tokens_ofText (text : List Char) :
    (Scan.ofText text).tokens = bodyOf text ++ [endToken (lastLine text)] := by
  rw [ofText_eq, bodyOf]

/-- The complaints about a text are those about its segments. -/
theorem diagnostics_ofText (text : List Char) :
    (Scan.ofText text).diagnostics =
      (placeFrom 1 (cut text)).filterMap fun segment => segment.1.diagnostic? segment.2 := by
  rw [ofText_eq]

/-- What holds of every piece that is a token holds of the tokens of a text. -/
theorem Decomposes.forall_token {property : Token → Prop}
    (ofPiece : ∀ {kind literal text rest}, Piece (.token kind literal) text rest →
      ∀ line : Int, property ⟨kind, String.ofList text, literal, line⟩)
    {segments : List Segment} {text : List Char} (decomposes : Decomposes segments text)
    (line : Nat) :
    ∀ token ∈ (placeFrom line segments).filterMap (fun segment => segment.1.token? segment.2),
      property token := by
  induction decomposes generalizing line with
  | nil => exact fun _ => nofun
  | cons fronts _ inductionHypothesis =>
      intro token member
      rw [placeFrom, List.filterMap_cons] at member
      cases fronts with
      | unexpected => exact inductionHypothesis _ token member
      | @piece shape text rest piece =>
          cases shape with
          | token kind literal =>
              rcases List.mem_cons.mp member with rfl | later
              · exact ofPiece piece _
              · exact inductionHypothesis _ token later
          | _ => exact inductionHypothesis _ token member

theorem forall_mem_bodyOf {property : Token → Prop} {text : List Char}
    (ofPiece : ∀ {kind literal text rest}, Piece (.token kind literal) text rest →
      ∀ line : Int, property ⟨kind, String.ofList text, literal, line⟩) :
    ∀ token ∈ bodyOf text, property token :=
  (decomposes_cut text).forall_token ofPiece 1

/-- The token for the end stands at the end only. -/
theorem kind_ne_eof_of_mem_bodyOf {text : List Char} :
    ∀ token ∈ bodyOf text, token.kind ≠ .eof := by
  refine forall_mem_bodyOf fun piece _ => ?_
  cases piece <;> exact TokenKind.noConfusion

/-! ## The scan -/

/-- The scanner reads its tokens and its complaints off the segments. -/
theorem reads_cut (source : List Char) :
    Reads [] (cut source) (Scan.ofText source).tokens (Scan.ofText source).diagnostics := by
  have reads := reads_placeFrom [] (cut source)
  rw [flatMap_text_cut] at reads
  rw [ofText_eq]
  exact reads

/-- A source is cut into segments in just one way, and the scanner returns the
tokens and the complaints that are read off them. -/
theorem ofText_reads_decomposition (source : List Char) :
    ∃ segments, Decomposes segments source ∧
      (∀ others, Decomposes others source → others = segments) ∧
      (∀ segment ∈ segments, segment.text ≠ []) ∧
      segments.flatMap Segment.text = source ∧
      Reads [] segments (Scan.ofText source).tokens (Scan.ofText source).diagnostics :=
  ⟨cut source, decomposes_cut source, fun _ => Decomposes.eq_cut,
    fun _ => text_ne_nil_of_mem_cut, flatMap_text_cut source, reads_cut source⟩

end TreeWalker.Lexical
