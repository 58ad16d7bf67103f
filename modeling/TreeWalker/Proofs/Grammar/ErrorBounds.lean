import TreeWalker.Proofs.Grammar.Exhaustion
import TreeWalker.Proofs.Grammar.Standing

/-!
# How many errors a source has

What is shown of the errors of a run is put together for a source in which nothing is
nested too deeply.  Its errors come in order, and no token is blamed often: a token of
the body once, or twice if it begins a statement for which there is no rule, and the
end once, and once more for each block that is open there.
-/

namespace TreeWalker.Grammar

variable {limit : Nat}

theorem Fault.message_eq_iff (fault : Fault) :
    fault.message = "Invalid assignment target." ↔ fault = .assignmentTarget := by
  cases fault with
  | semicolonAfter sentence => cases sentence <;> decide
  | conditionOpening guarded | conditionClosing guarded => cases guarded <;> decide
  | _ => decide

/-- Errors about stray signs of assignment can be told from all others by what they say. -/
theorem SyntaxError.isStray_iff (error : SyntaxError) :
    error.isStray = true ↔ error.diagnostic.message = "Invalid assignment target." :=
  beq_iff_eq.trans error.fault.message_eq_iff.symm

/-- The errors of a source, at the end of which so many blocks are open, name the tokens
at their positions, and name them in order and not too often. -/
structure Bounded (body : List Token) (eof : Token) (openBlocks : Nat)
    (errors : List SyntaxError) : Prop where
  named : ∀ error ∈ errors, (body ++ [eof])[error.position]? = some error.token
  ordered : (faults errors).Pairwise fun earlier later => earlier.position ≤ later.position
  inside : ∀ position token, body[position]? = some token →
    blameCount errors position ≤ 2 ∧
      (blameCount errors position = 2 → lacksRule token.kind = true)
  atEnd : blameCount errors body.length ≤ openBlocks + 1
  signs : ∀ error ∈ strays errors, error.token.kind = .symbol .equal
  distinct : ((strays errors).map SyntaxError.position).Nodup

theorem mem_of_mem_faults {errors : List SyntaxError} {error : SyntaxError}
    (member : error ∈ faults errors) : error ∈ errors :=
  List.mem_of_mem_filter member

section Sources

variable {body : List Token} {eof : Token} {errors : List SyntaxError} {after : Cursor}

/-- The end of a source stands at one position only. -/
theorem blameCount_length (source : IsSource body eof)
    (named : ∀ error ∈ errors, (body ++ [eof])[error.position]? = some error.token) :
    blameCount errors body.length = endCount errors := by
  refine List.countP_congr fun error member => ?_
  have stands := named error (mem_of_mem_faults member)
  rw [beq_iff_eq, beq_iff_eq]
  constructor
  · intro atEnd
    rw [atEnd, List.getElem?_concat_length] at stands
    rw [← Option.some.inj stands]
    exact source.isEnd
  · intro isEnd
    by_contra other
    have bound := (List.getElem?_eq_some_iff.mp stands).1
    rw [List.length_append, List.length_singleton] at bound
    rw [List.getElem?_append_left (by omega)] at stands
    exact source.inside error.token (List.mem_of_getElem? stands) isEnd

/-- The errors of a tidy cursor at the end of a source, of which so many are about the
end. -/
theorem Cursor.Tidy.bounded (tidy : after.Tidy) (source : IsSource body eof)
    (place : after.position = body.length) (blames : after.Blames (body ++ [eof]))
    {openBlocks : Nat} (few : endCount after.errors ≤ openBlocks + 1) :
    Bounded body eof openBlocks after.errors where
  named := blames.errors
  ordered := tidy.ordered
  inside := by
    intro position token stands
    have before : position < body.length := (List.getElem?_eq_some_iff.mp stands).1
    obtain ⟨twice, noRule⟩ := tidy.bearable position (place ▸ before)
    refine ⟨twice, fun isTwice => ?_⟩
    obtain ⟨error, member, rfl, lacks⟩ := noRule isTwice
    have named := blames.errors error (mem_of_mem_faults member)
    rw [List.getElem?_append_left before, stands] at named
    rwa [Option.some.inj named]
  atEnd := by rwa [blameCount_length source blames.errors]
  signs := tidy.strays.signs
  distinct := tidy.strays.distinct

/-- Where the tokens before the end run out, the end has not been blamed. -/
theorem endCount_eq_zero (source : IsSource body eof) (blames : after.Blames body) :
    endCount after.errors = 0 :=
  List.countP_eq_zero.mpr fun error member isEnd =>
    source.inside error.token
      (List.mem_of_getElem? (blames.errors error (mem_of_mem_faults member))) (by simpa using isEnd)

/-- The declarations of a source come to its end where those of its body run out of
tokens, and blame it for the blocks that are open there and once more. -/
theorem declarations_arrive {levels : Nat} {statements : List Node} (source : IsSource body eof)
    (run : declarations levels (Cursor.atStart (body ++ [eof])) = .ok statements after) :
    ∃ arrival, program levels (Cursor.atStart body) = .error .exhausted arrival ∧
      arrival.position = body.length ∧ endCount after.errors ≤ arrival.openBlocks + 1 := by
  have meets : Meets eof 1 (declarations levels) :=
    Meets.many source.isEnd rfl (proceeds_declaration rfl levels)
      (Meets.declaration source.isEnd levels)
  have met := meets (Cursor.atStart body)
  rw [show (Cursor.atStart body).ending eof = Cursor.atStart (body ++ [eof]) from rfl, run] at met
  obtain ⟨arrival, stops, out⟩ := program_exhausted levels source.inside
  have same : declarations levels (Cursor.atStart body) = .error .exhausted arrival := by
    rcases program_cases levels (Cursor.atStart body) with same | ⟨stopped, overNested, _⟩
    · rw [← same, stops]
    · rw [overNested] at met
      cases met
  rw [same] at met
  obtain ⟨_, _, less⟩ := met
  have leads := Orderly.program levels (Cursor.atStart body)
  have blames := blames_program levels body
  rw [stops] at leads blames
  obtain ⟨word, split, place, _⟩ := leads.passes
  refine ⟨arrival, stops, ?_, ?_⟩
  · rw [show body = word ++ arrival.ahead from split, out, List.append_nil]
    exact place.trans (Nat.zero_add _)
  · have quiet : endCount arrival.errors = 0 := endCount_eq_zero source blames
    unfold Cursor.weight at less
    omega

/-- The errors of a source in which nothing is nested too deeply are bounded.  The run on
the tokens before the end stops where they have run out, and the blocks counted are
those that are open there. -/
theorem errors_bounded (source : IsSource body eof)
    (within : ∀ error ∈ syntaxErrors limit (body ++ [eof]), error.fault ≠ .nesting) :
    (Parsed.ofProgram limit (body ++ [eof])).diagnostics =
        (syntaxErrors limit (body ++ [eof])).map SyntaxError.diagnostic ∧
      (∀ error ∈ syntaxErrors limit (body ++ [eof]), error.isStray = true ↔
        error.diagnostic.message = "Invalid assignment target.") ∧
      ∃ arrival, program limit (Cursor.atStart body) = .error .exhausted arrival ∧
        arrival.position = body.length ∧
        Bounded body eof arrival.openBlocks (syntaxErrors limit (body ++ [eof])) := by
  refine ⟨ofProgram_diagnostics limit (body ++ [eof]), fun error _ => error.isStray_iff, ?_⟩
  obtain ⟨statements, after, run, _, place, _⟩ := program_stands limit source
  have blames := blames_program limit (body ++ [eof])
  have ended : Ended (body ++ [eof]) := (ended_singleton source.isEnd).append_left body
  have same : program limit (Cursor.atStart (body ++ [eof])) =
      declarations limit (Cursor.atStart (body ++ [eof])) :=
    program_within ended fun ⟨error, member, nested⟩ => within error member nested
  unfold syntaxErrors
  rw [run] at blames ⊢
  have declared := same.symm.trans run
  obtain ⟨arrival, stops, stands, few⟩ := declarations_arrive source declared
  exact ⟨arrival, stops, stands,
    (declarations_ready declared).toTidy.bounded source place blames few⟩

/-- The tokens `{ 1 = 2; print class; print`, of a block that is not closed. -/
def unfinishedBlock : List Token :=
  [.symbol .leftBrace, .number, .symbol .equal, .number, .symbol .semicolon, .keyword .kwPrint,
    .keyword .kwClass, .symbol .semicolon, .keyword .kwPrint].map blankToken

/-- The sign of the assignment is stray, `class` is blamed twice, and so is the end. -/
theorem errors_bounded_unfinished :
    IsSource unfinishedBlock (blankToken .eof) ∧
    (∀ error ∈ syntaxErrors 100 (unfinishedBlock ++ [blankToken .eof]), error.fault ≠ .nesting) ∧
    (syntaxErrors 100 (unfinishedBlock ++ [blankToken .eof])).map
        (fun error => (error.position, error.isStray)) =
      [(2, true), (6, false), (6, false), (9, false), (9, false)] ∧
    ∃ arrival, program 100 (Cursor.atStart unfinishedBlock) = .error .exhausted arrival ∧
      arrival.position = 9 ∧
      Bounded unfinishedBlock (blankToken .eof) arrival.openBlocks
        (syntaxErrors 100 (unfinishedBlock ++ [blankToken .eof])) := by
  have source : IsSource unfinishedBlock (blankToken .eof) := ⟨by decide, rfl⟩
  have within : ∀ error ∈ syntaxErrors 100 (unfinishedBlock ++ [blankToken .eof]),
      error.fault ≠ .nesting := by
    decide +kernel
  exact ⟨source, within, by decide +kernel, (errors_bounded source within).2.2⟩

end Sources

end TreeWalker.Grammar
