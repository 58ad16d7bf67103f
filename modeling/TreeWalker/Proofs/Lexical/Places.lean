import Mathlib.Data.List.Forall2
import TreeWalker.Proofs.Lexical.Decomposition
import TreeWalker.Proofs.Text.Lines

/-!
# Where the parts of a source end

The scanner counts line feeds as it goes, and so names for every token and every
complaint a line of the source.  It is the line on which the part of the source ends
that the token or the complaint is about.  What this part has after its last line
feed is to be seen there.
-/

namespace TreeWalker.Lexical

/-- The part stands in the source, and ends on the line with the number. -/
def EndsOn (source part : List Char) (line : Int) : Prop :=
  ∃ before after, source = before ++ part ++ after ∧ line = lastLine (before ++ part)

namespace EndsOn

variable {source part : List Char} {line : Int}

/-- The number is that of a line of the source. -/
theorem bounds (endsOn : EndsOn source part line) : 1 ≤ line ∧ line ≤ 1 + lineFeeds source := by
  obtain ⟨before, after, rfl, rfl⟩ := endsOn
  rw [lastLine, lineFeeds_append _ after]
  omega

/-- The last line of the part is seen on the line of the source. -/
theorem shows (endsOn : EndsOn source part line) :
    ∃ text, Text.line? source line = some text ∧ Text.afterLastFeed part <:+: text := by
  obtain ⟨before, after, rfl, rfl⟩ := endsOn
  refine ⟨_, Text.line?_append (before ++ part) after, ?_⟩
  exact (Text.afterLastFeed_suffix before part).isInfix.trans (List.prefix_append _ _).isInfix

/-- Nothing at all ends on the last line. -/
theorem nothing (source : List Char) : EndsOn source [] (lastLine source) :=
  ⟨source, [], by simp, by simp⟩

end EndsOn

/-! ## Segments -/

/-- A segment is placed on the line on which it ends. -/
theorem endsOn_of_mem_placeFrom {before : List Char} {segments : List Segment}
    {placed : Segment × Nat} (member : placed ∈ placeFrom (lastLine before) segments) :
    EndsOn (before ++ segments.flatMap Segment.text) placed.1.text placed.2 := by
  induction segments generalizing before with
  | nil => exact absurd member List.not_mem_nil
  | cons segment segments inductionHypothesis =>
      rw [placeFrom, List.mem_cons, ← lastLine_append] at member
      rw [List.flatMap_cons]
      rcases member with rfl | later
      · exact ⟨before, _, (List.append_assoc _ _ _).symm, rfl⟩
      · rw [← List.append_assoc]
        exact inductionHypothesis later

/-- A segment that begins nothing is a single character, and no line feed. -/
theorem Decomposes.unexpected {segments : List Segment} {text : List Char}
    (decomposes : Decomposes segments text) {segment : Segment} (member : segment ∈ segments)
    (isUnexpected : segment.shape = .unexpected) :
    ∃ c, segment.text = [c] ∧ c ≠ '\n' := by
  induction decomposes with
  | nil => exact absurd member List.not_mem_nil
  | cons fronts _ inductionHypothesis =>
      rcases List.mem_cons.mp member with rfl | later
      · cases fronts with
        | piece piece => cases piece <;> cases isUnexpected
        | @unexpected c _ nothing =>
            refine ⟨c, rfl, ?_⟩
            rintro rfl
            exact nothing .gap [] [] (.layout (by simp))
      · exact inductionHypothesis later

/-! ## Tokens and complaints -/

variable {source : List Char}

/-- The segments of a source, each with the line on which it ends. -/
theorem endsOn_of_mem_cut {placed : Segment × Nat} (member : placed ∈ placeFrom 1 (cut source)) :
    EndsOn source placed.1.text placed.2 := by
  have endsOn : EndsOn ([] ++ (cut source).flatMap Segment.text) placed.1.text placed.2 :=
    endsOn_of_mem_placeFrom member
  rwa [List.nil_append, flatMap_text_cut] at endsOn

/-- A token is on the line on which its lexeme ends. -/
theorem endsOn_of_mem_tokens {token : Token} (member : token ∈ (Scan.ofText source).tokens) :
    EndsOn source token.lexeme.toList token.line := by
  rw [tokens_ofText] at member
  rcases List.mem_append.mp member with inside | last
  · obtain ⟨placed, isPlaced, gives⟩ := List.mem_filterMap.mp inside
    have endsOn := endsOn_of_mem_cut isPlaced
    unfold Segment.token? at gives
    split at gives <;> cases gives
    rwa [String.toList_ofList]
  · rw [List.mem_singleton.mp last]
    exact .nothing source

/-- A complaint is about some part of the source, and on the line on which it ends. -/
theorem exists_endsOn_of_mem_diagnostics {diagnostic : Diagnostic}
    (member : diagnostic ∈ (Scan.ofText source).diagnostics) :
    ∃ part, EndsOn source part diagnostic.line := by
  rw [diagnostics_ofText] at member
  obtain ⟨placed, isPlaced, gives⟩ := List.mem_filterMap.mp member
  obtain ⟨message, _, rfl⟩ := Option.map_eq_some_iff.mp gives
  exact ⟨placed.1.text, endsOn_of_mem_cut isPlaced⟩

/-- Wording of the complaint about a character that begins nothing. -/
def unexpectedMessage : String :=
  "Unexpected character."

theorem filter_diagnostic? (segment : Segment) (line : Nat) :
    (segment.diagnostic? line).filter (·.message = unexpectedMessage) =
      if segment.shape = .unexpected then some ⟨.scan, line, "", unexpectedMessage⟩ else none := by
  obtain ⟨shape, text⟩ := segment
  cases shape <;> simp [Segment.diagnostic?, Shape.complaint?, unexpectedMessage]

/-- The complaints with this wording are about the segments that begin nothing, one
for one. -/
theorem filter_diagnostics (placed : List (Segment × Nat)) :
    (placed.filterMap fun segment => segment.1.diagnostic? segment.2).filter
        (·.message = unexpectedMessage) =
      (placed.filter (·.1.shape = .unexpected)).map
        fun segment => ⟨.scan, segment.2, "", unexpectedMessage⟩ := by
  rw [List.filter_filterMap, ← List.filterMap_eq_map, List.filterMap_filter]
  refine List.filterMap_congr fun segment _ => ?_
  rw [filter_diagnostic?]
  simp only [decide_eq_true_eq, Function.comp_apply]

/-- The complaints about characters that begin nothing name the lines of these
characters, in the order of the source. -/
theorem unexpected_endsOn (source : List Char) :
    List.Forall₂ (fun diagnostic segment =>
        ∃ c, segment.text = [c] ∧ c ≠ '\n' ∧ EndsOn source [c] diagnostic.line)
      ((Scan.ofText source).diagnostics.filter (·.message = unexpectedMessage))
      ((cut source).filter (·.shape = .unexpected)) := by
  have segments : (cut source).filter (·.shape = .unexpected) =
      ((placeFrom 1 (cut source)).filter (·.1.shape = .unexpected)).map Prod.fst := by
    conv_lhs => rw [← map_fst_placeFrom 1 (cut source), List.filter_map]
    rfl
  rw [segments, diagnostics_ofText, filter_diagnostics, List.forall₂_map_left_iff,
    List.forall₂_map_right_iff, List.forall₂_same]
  intro placed member
  obtain ⟨isPlaced, isUnexpected⟩ := List.mem_filter.mp member
  have isSegment : placed.1 ∈ cut source := by
    rw [← map_fst_placeFrom 1 (cut source)]
    exact List.mem_map_of_mem isPlaced
  obtain ⟨c, single, noFeed⟩ :=
    (decomposes_cut source).unexpected isSegment (of_decide_eq_true isUnexpected)
  refine ⟨c, single, noFeed, ?_⟩
  rw [← single]
  exact endsOn_of_mem_cut isPlaced

end TreeWalker.Lexical
