import TreeWalker.Proofs.Lexical.Joining
import TreeWalker.Proofs.Lexical.Places

/-!
# Line numbers

A token is on the line that is numbered one more than there are line feeds in the
source up to the end of its lexeme.  A character that begins nothing is told of on
the line that it stands on, and what is left open on the last line.  Which token and
which complaint belongs to a segment can be told by counting the segments in front
of it.  No line number is smaller than one before it.
-/

namespace TreeWalker.Lexical

/-- Whether a segment of this shape is a token. -/
def Shape.isToken : Shape → Bool
  | token _ _ => true
  | _ => false

/-- Number of segments that are tokens. -/
def tokenCount (segments : List Segment) : Nat :=
  segments.countP (·.shape.isToken)

/-- Number of segments that are complained about. -/
def complaintCount (segments : List Segment) : Nat :=
  segments.countP (·.shape.complaint?.isSome)

variable {before text source : List Char} {front back segments : List Segment}
  {tokens : List Token} {diagnostics : List Diagnostic}

/-! ## Counting segments -/

theorem Complaint.complaint? {shape : Shape} {message : String}
    (complaint : Complaint shape message) : shape.complaint? = some message := by
  cases complaint <;> rfl

theorem Complaint.isToken {shape : Shape} {message : String}
    (complaint : Complaint shape message) : shape.isToken = false := by
  cases complaint <;> rfl

/-- What is read off the segments behind others are the tokens and the complaints
behind those of the others. -/
theorem Reads.drop (reads : Reads before (front ++ back) tokens diagnostics) :
    Reads (before ++ front.flatMap Segment.text) back (tokens.drop (tokenCount front))
      (diagnostics.drop (complaintCount front)) := by
  induction front generalizing before tokens diagnostics with
  | nil => simpa [tokenCount, complaintCount] using reads
  | cons segment front inductionHypothesis =>
      rw [List.flatMap_cons, ← List.append_assoc]
      cases reads with
      | token others =>
          simpa [tokenCount, complaintCount, Shape.isToken, Shape.complaint?] using
            inductionHypothesis others
      | gap others =>
          simpa [tokenCount, complaintCount, Shape.isToken, Shape.complaint?] using
            inductionHypothesis others
      | problem complaint others =>
          simpa [tokenCount, complaintCount, complaint.isToken, complaint.complaint?] using
            inductionHypothesis others

/-- There is a token for each segment that is one and a token for the end, and a
complaint for each segment that is complained about. -/
theorem Reads.lengths (reads : Reads before segments tokens diagnostics) :
    tokens.length = tokenCount segments + 1 ∧ diagnostics.length = complaintCount segments := by
  induction reads with
  | done => exact ⟨rfl, rfl⟩
  | token _ inductionHypothesis | gap _ inductionHypothesis =>
      simpa [tokenCount, complaintCount, Shape.isToken, Shape.complaint?] using inductionHypothesis
  | problem complaint _ inductionHypothesis =>
      simpa [tokenCount, complaintCount, complaint.isToken, complaint.complaint?] using
        inductionHypothesis

/-! ## Rising lines -/

theorem lastLine_le_append (before text : List Char) :
    (lastLine before : Int) ≤ lastLine (before ++ text) := by
  rw [lastLine_append]
  omega

/-- A smaller number may stand in front of the first of rising numbers. -/
theorem pairwise_cons_of_le {first second : Int} {others : List Int} (le : first ≤ second)
    (rising : (second :: others).Pairwise (· ≤ ·)) : (first :: others).Pairwise (· ≤ ·) := by
  obtain ⟨least, later⟩ := List.pairwise_cons.mp rising
  exact List.pairwise_cons.mpr ⟨fun other member => Int.le_trans le (least other member), later⟩

/-- A number may be put in front of rising numbers again, and a smaller one in front
of it. -/
theorem pairwise_cons_cons {first second : Int} {others : List Int} (le : first ≤ second)
    (rising : (second :: others).Pairwise (· ≤ ·)) :
    (first :: second :: others).Pairwise (· ≤ ·) :=
  List.pairwise_cons.mpr ⟨List.forall_mem_cons.mpr ⟨le,
    (List.pairwise_cons.mp (pairwise_cons_of_le le rising)).1⟩, rising⟩

/-- The lines of tokens and the lines of complaints rise, from the line on which the
text before them ends. -/
theorem Reads.rising (reads : Reads before segments tokens diagnostics) :
    ((lastLine before : Int) :: tokens.map Token.line).Pairwise (· ≤ ·) ∧
      ((lastLine before : Int) :: diagnostics.map Diagnostic.line).Pairwise (· ≤ ·) := by
  induction reads with
  | done => simp
  | @token before text _ _ _ _ _ _ inductionHypothesis =>
      have le := lastLine_le_append before text
      exact ⟨pairwise_cons_cons le inductionHypothesis.1,
        pairwise_cons_of_le le inductionHypothesis.2⟩
  | @gap before text _ _ _ _ inductionHypothesis =>
      have le := lastLine_le_append before text
      exact ⟨pairwise_cons_of_le le inductionHypothesis.1,
        pairwise_cons_of_le le inductionHypothesis.2⟩
  | @problem before text _ _ _ _ _ _ _ inductionHypothesis =>
      have le := lastLine_le_append before text
      exact ⟨pairwise_cons_of_le le inductionHypothesis.1,
        pairwise_cons_cons le inductionHypothesis.2⟩

/-- The tokens of a source are on rising lines. -/
theorem lines_rising (source : List Char) :
    ((Scan.ofText source).tokens.map Token.line).Pairwise (· ≤ ·) :=
  (List.pairwise_cons.mp (reads_cut source).rising.1).2

/-! ## Parts of a decomposition -/

theorem Decomposes.flatMap_text (decomposes : Decomposes segments text) :
    segments.flatMap Segment.text = text := by
  rw [decomposes.eq_cut, flatMap_text_cut]

/-- What is left open goes up to the end of the source. -/
theorem Decomposes.of_isOpen {segment : Segment}
    (decomposes : Decomposes (front ++ segment :: back) source)
    (isOpen : segment.shape.isOpen = true) :
    front.flatMap Segment.text ++ segment.text = source := by
  induction front generalizing source with
  | nil =>
      cases decomposes with
      | cons fronts _ =>
          cases fronts with
          | unexpected => cases isOpen
          | piece piece =>
              cases piece with
              | openString | openComment => simp
              | _ => cases isOpen
  | cons first front inductionHypothesis =>
      cases decomposes with
      | cons _ others => rw [List.flatMap_cons, List.append_assoc, inductionHypothesis others]

/-! ## Lines -/

/-- Every token and every complaint of a scan is on the line on which it belongs. -/
structure ExactLines (segments : List Segment) (source : List Char) (scan : Scan) : Prop where
  /-- A token is on the line on which its lexeme ends. -/
  tokens : ∀ front kind literal text back,
    segments = front ++ ⟨.token kind literal, text⟩ :: back →
      scan.tokens[tokenCount front]? = some ⟨kind, String.ofList text, literal,
        1 + (front.flatMap Segment.text ++ text).count '\n'⟩
  /-- The token for the end comes last, on the last line. -/
  ending : scan.tokens[tokenCount segments]? = some ⟨.eof, "", .nil, 1 + source.count '\n'⟩ ∧
    scan.tokens.length = tokenCount segments + 1
  /-- A character that begins nothing is told of on its own line. -/
  unexpected : ∀ front c back, segments = front ++ ⟨.unexpected, [c]⟩ :: back →
    scan.diagnostics[complaintCount front]? = some ⟨.scan,
      1 + (front.flatMap Segment.text).count '\n', "", "Unexpected character."⟩
  /-- What is left open is told of on the last line. -/
  leftOpen : ∀ front shape text back message, segments = front ++ ⟨shape, text⟩ :: back →
    shape.isOpen = true → Complaint shape message →
      scan.diagnostics[complaintCount front]? = some ⟨.scan, 1 + source.count '\n', "", message⟩
  /-- Nothing else is told of. -/
  complaints : scan.diagnostics.length = complaintCount segments
  /-- The lines of tokens rise. -/
  tokensRise : (scan.tokens.map Token.line).Pairwise (· ≤ ·)
  /-- The lines of complaints rise. -/
  diagnosticsRise : (scan.diagnostics.map Diagnostic.line).Pairwise (· ≤ ·)

/-- What comes of the first of several segments comes first. -/
theorem getElem?_of_drop {α : Type} {items others : List α} {item : α} {count : Nat}
    (split : items.drop count = item :: others) : items[count]? = some item := by
  rw [← List.head?_drop, split]
  rfl

namespace Reads

/-- The token of a segment that is one. -/
theorem token_at {kind : TokenKind} {literal : Value}
    (reads : Reads before (front ++ ⟨.token kind literal, text⟩ :: back) tokens diagnostics) :
    tokens[tokenCount front]? = some ⟨kind, String.ofList text, literal,
      lastLine (before ++ front.flatMap Segment.text ++ text)⟩ := by
  -- What is left behind the other segments begins with the token.
  have behind := reads.drop
  generalize left : tokens.drop (tokenCount front) = later at behind
  generalize diagnostics.drop (complaintCount front) = complaints at behind
  cases behind with
  | token _ => exact getElem?_of_drop left
  | problem complaint _ => cases complaint

/-- What is said of a segment that is complained about. -/
theorem complaint_at {shape : Shape} {message : String}
    (reads : Reads before (front ++ ⟨shape, text⟩ :: back) tokens diagnostics)
    (complaint : Complaint shape message) :
    diagnostics[complaintCount front]? = some ⟨.scan,
      lastLine (before ++ front.flatMap Segment.text ++ text), "", message⟩ := by
  have behind := reads.drop
  generalize tokens.drop (tokenCount front) = later at behind
  generalize left : diagnostics.drop (complaintCount front) = complaints at behind
  cases behind with
  | token _ | gap _ => cases complaint
  | problem same _ =>
      obtain rfl : message = _ := Option.some.inj (complaint.complaint?.symm.trans same.complaint?)
      exact getElem?_of_drop left

/-- The token for the end stands behind the tokens of the segments. -/
theorem ending_at (reads : Reads before segments tokens diagnostics) :
    tokens[tokenCount segments]? =
      some ⟨.eof, "", .nil, lastLine (before ++ segments.flatMap Segment.text)⟩ := by
  rw [← List.append_nil segments] at reads
  have behind := reads.drop
  generalize left : tokens.drop (tokenCount segments) = later at behind
  generalize diagnostics.drop (complaintCount segments) = complaints at behind
  cases behind
  exact getElem?_of_drop left

end Reads

/-- A source is cut into segments, and every line that is named is counted from its
start up to the end of a segment. -/
theorem lines_exact (source : List Char) :
    ∃ segments, Decomposes segments source ∧ ExactLines segments source (Scan.ofText source) := by
  have decomposes := decomposes_cut source
  have reads := reads_cut source
  have rising := reads.rising
  generalize cut source = segments at decomposes reads
  refine ⟨segments, decomposes, {
    tokens := ?tokens
    ending := ⟨?ending, reads.lengths.1⟩
    unexpected := ?unexpected
    leftOpen := ?leftOpen
    complaints := reads.lengths.2
    tokensRise := (List.pairwise_cons.mp rising.1).2
    diagnosticsRise := (List.pairwise_cons.mp rising.2).2 }⟩
  case tokens =>
    rintro front kind literal text back rfl
    exact reads.token_at
  case ending =>
    rw [reads.ending_at, decomposes.flatMap_text]
    rfl
  case unexpected =>
    rintro front c back rfl
    have member : (⟨.unexpected, [c]⟩ : Segment) ∈ front ++ ⟨.unexpected, [c]⟩ :: back := by simp
    obtain ⟨_, ⟨⟩, noFeed⟩ := decomposes.unexpected member rfl
    have sameLine : lastLine ([] ++ front.flatMap Segment.text ++ [c]) =
        1 + (front.flatMap Segment.text).count '\n' := by
      simp [lastLine, lineFeeds, noFeed]
    rw [reads.complaint_at .unexpected, sameLine]
    rfl
  case leftOpen =>
    rintro front shape text back message rfl isOpen complaint
    rw [reads.complaint_at complaint, List.nil_append, decomposes.of_isOpen isOpen]
    rfl

end TreeWalker.Lexical
