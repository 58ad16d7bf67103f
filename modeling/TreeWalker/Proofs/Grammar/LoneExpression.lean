import TreeWalker.Proofs.Grammar.Gliding
import TreeWalker.Proofs.Grammar.Semicolon

/-!
# An expression on its own

An expression on its own and the same expression as the only sentence of a program
are parsed to one tree, with one list of reports.  Both parsers read an expression
first.  Where it is found, nothing but stray signs of assignment is reported, and it
is followed by the end of the source or by the semicolon.  Where it is not found, or
something else follows it, there is another report.
-/

namespace TreeWalker.Grammar

variable {limit : Nat}

/-- All reports are about the target of an assignment. -/
def OnlyStrays (diagnostics : List Diagnostic) : Prop :=
  ∀ diagnostic ∈ diagnostics, diagnostic.message = "Invalid assignment target."

/-- The report of a stray sign of assignment. -/
def strayReport (equal : Token) : Diagnostic :=
  ⟨.parse, equal.line, SyntaxError.place equal, "Invalid assignment target."⟩

variable {levels : Nat} {expr : Node} {word strays rest tokens : List Token} {eof semicolon : Token}
  {cursor after : Cursor} {errors : List SyntaxError} {diagnostics : List Diagnostic}

/-! ## Reports of stray tokens -/

/-- Which stray tokens there are says what is reported. -/
theorem Reports.diagnostics_eq (reports : Reports strays errors) :
    errors.map SyntaxError.diagnostic = strays.map strayReport := by
  have same := congrArg (List.map fun named : Token × Fault =>
    (⟨.parse, named.1.line, SyntaxError.place named.1, named.2.message⟩ : Diagnostic)) reports
  rw [List.map_map, List.map_map] at same
  exact same

theorem onlyStrays_iff (errors : List SyntaxError) :
    OnlyStrays (errors.map SyntaxError.diagnostic) ↔ firstFault errors = none := by
  rw [← Option.map_eq_none_iff (f := SyntaxError.diagnostic), ← find?_diagnostic,
    List.find?_eq_none, OnlyStrays]
  simp

/-- A parser that glides on notes nothing but stray tokens. -/
theorem Cursor.Glides.firstFault_eq_none
    (glides : (Cursor.atStart tokens).Glides after) : firstFault after.errors = none := by
  obtain ⟨strays, noted, within⟩ := glides.notes
  rw [noted, firstFault, List.find?_eq_none]
  intro error member
  have isStray := within.strays error member
  simpa [SyntaxError.isStray] using isStray

/-- A parser that halts notes a fault. -/
theorem Cursor.Halts.firstFault_ne_none
    (halts : (Cursor.atStart tokens).Halts after) : firstFault after.errors ≠ none := by
  obtain ⟨middle, _, token, rest, fault, _, isFault, rfl⟩ := halts
  simp [firstFault, Cursor.blaming, isFault]

/-! ## Expressions up to the end -/

namespace Gliding

theorem nextToken : Gliding nextToken := by
  intro cursor
  cases split : cursor.ahead with
  | nil =>
      rw [nextToken_apply_nil split]
      trivial
  | cons token rest =>
      rw [nextToken_apply split]
      exact .refl cursor

theorem wholeExpression (levels : Nat) : Gliding (wholeExpression levels) := by
  refine (expression levels).bind fun expr => nextToken.bind fun token => ?_
  split
  · exact pure expr
  · exact reject (by simp)

end Gliding

theorem Orderly.wholeExpression (levels : Nat) : Orderly (wholeExpression levels) := by
  refine (expression levels).bind fun expr => nextToken.bind fun token => ?_
  split
  · exact pure expr
  · exact reject _

theorem Avoids.wholeExpression (levels : Nat) :
    Avoids .exhausted (wholeExpression levels) := by
  refine (Avoids.expression levels).bind (Orderly.expression levels) fun expr =>
    Avoids.after Orderly.nextToken Succeeds.nextToken fun token => ?_
  split
  · exact Avoids.pure expr
  · exact Avoids.reject _

/-- An expression is a whole one if the end of the source follows it. -/
theorem wholeExpression_eq_ok_iff :
    wholeExpression levels cursor = .ok expr after ↔
      expression levels cursor = .ok expr after ∧
        ∃ token rest, after.ahead = token :: rest ∧ token.kind = .eof := by
  rw [wholeExpression, bind_eq_ok_iff]
  constructor
  · rintro ⟨found, middle, run, ends⟩
    cases split : middle.ahead with
    | nil =>
        rw [bind_apply_error (nextToken_apply_nil split)] at ends
        cases ends
    | cons token rest =>
        rw [bind_apply_ok (nextToken_apply split)] at ends
        by_cases isEnd : token.kind = .eof
        · rw [if_pos (by simp [isEnd, endsSource])] at ends
          cases ends
          exact ⟨run, token, rest, split, isEnd⟩
        · rw [if_neg (by simp [isEnd, endsSource]), reject_apply split] at ends
          cases ends
  · rintro ⟨run, token, rest, split, isEnd⟩
    refine ⟨expr, after, run, ?_⟩
    rw [bind_apply_ok (nextToken_apply split), if_pos (by simp [isEnd, endsSource])]
    rfl

/-- What is found up to the end of a source is an expression, and its stray tokens are
noted. -/
theorem phrase_of_wholeExpression (source : IsSource word eof)
    (run : wholeExpression levels (Cursor.atStart (word ++ [eof])) = .ok expr after) :
    ∃ strays, Phrase .expression expr word strays ∧ Reports strays after.errors := by
  have glides := Gliding.wholeExpression levels (Cursor.atStart (word ++ [eof]))
  rw [run] at glides
  obtain ⟨exprRun, next, rest, ahead, isEnd⟩ := wholeExpression_eq_ok_iff.mp run
  -- Of the three verdicts two would have left a fault that is not about a stray token.
  have noFault {error : SyntaxError} :
      ¬ (Cursor.atStart (word ++ [eof])).FirstNote (cursorOf (expression levels
        (Cursor.atStart (word ++ [eof])))) error := by
    intro first
    rw [exprRun] at first
    have found := firstNote_atStart first
    rw [cursorOf_ok, Cursor.Glides.firstFault_eq_none glides] at found
    cases found
  cases decides_expression levels (word ++ [eof])
    ((ended_singleton source.isEnd).append_left word) with
  | @blames front token rest fault split _ _ blames =>
      exact absurd (blames rest (source.ended split) _ split) noFault
  | givesUp givesUp =>
      rcases givesUp (Cursor.atStart (word ++ [eof])) rfl with ⟨_, _, stops, _⟩ | ⟨_, _, first⟩
      · rw [exprRun] at stops
        cases stops
      · exact absurd first noFault
  | @takes found front strays next' rest' split phrase _ ended takes =>
      obtain ⟨stopped, taken, past⟩ := takes rest' ended (Cursor.atStart (word ++ [eof])) split
      rw [exprRun] at taken
      cases taken
      obtain ⟨rfl, rfl⟩ := List.cons.inj (ahead.symm.trans past.ahead)
      obtain ⟨rfl, -, -⟩ := source.eq_of_split split isEnd
      obtain ⟨errors, noted, reports⟩ := past.errors
      exact ⟨strays, phrase, by rwa [noted]⟩

/-! ## What comes of an expression on its own -/

theorem loneExpression_apply_ok (run : wholeExpression levels cursor = .ok expr after) :
    loneExpression levels cursor = .ok (some expr) after :=
  abandoning_apply_ok (by rw [run])

theorem loneExpression_apply_rejected
    (run : wholeExpression levels cursor = .error .rejected after) :
    loneExpression levels cursor = .ok none after :=
  abandoning_apply_ok (by rw [run])

theorem loneExpression_apply_overNested
    (run : wholeExpression levels cursor = .error .overNested after) :
    loneExpression levels cursor =
      (abandon 0 >>= fun _ => (pure none : Parser (Option Node))) after :=
  abandoning_apply_overNested (by rw [run])

theorem ofExpression_eq {found : Option Node}
    (run : loneExpression limit (Cursor.atStart tokens) = .ok found after) :
    Parsed.ofExpression limit tokens = ⟨found, after.diagnostics⟩ := by
  rw [Parsed.ofExpression, parseWith, run]

/-- Either a whole expression is found, with nothing but reports of stray tokens, or
nothing is found, with another report. -/
theorem ofExpression_cases (limit : Nat) (ended : Ended tokens) :
    (∃ expr after, wholeExpression limit (Cursor.atStart tokens) = .ok expr after ∧
      Parsed.ofExpression limit tokens = ⟨some expr, after.diagnostics⟩ ∧
      OnlyStrays after.diagnostics) ∨
    (Parsed.ofExpression limit tokens).result = none ∧
      ¬ OnlyStrays (Parsed.ofExpression limit tokens).diagnostics := by
  have ends := Gliding.wholeExpression limit (Cursor.atStart tokens)
  cases run : wholeExpression limit (Cursor.atStart tokens) with
  | ok expr after =>
      rw [run] at ends
      exact Or.inl ⟨expr, after, rfl, ofExpression_eq (loneExpression_apply_ok run),
        (onlyStrays_iff _).mpr (Cursor.Glides.firstFault_eq_none ends)⟩
  | error stop after =>
      refine Or.inr ?_
      cases stop with
      | rejected =>
          rw [run] at ends
          rw [ofExpression_eq (loneExpression_apply_rejected run)]
          exact ⟨rfl, mt (onlyStrays_iff _).mp (Cursor.Halts.firstFault_ne_none ends)⟩
      | overNested =>
          have leads := Orderly.wholeExpression limit (Cursor.atStart tokens)
          rw [run] at leads
          have afterEnded : Ended after.ahead := leads.ended ended
          obtain ⟨_, final, abandoned⟩ := Succeeds.abandon 0 after afterEnded
          have stopped : loneExpression limit (Cursor.atStart tokens) = .ok none final :=
            (loneExpression_apply_overNested run).trans (bind_apply_ok abandoned)
          obtain ⟨error, _, errors, noted, found⟩ :=
            firstNote_abandon (List.append_nil after.errors).symm rfl afterEnded 0
          rw [bind_apply_ok abandoned] at noted
          rw [ofExpression_eq stopped]
          refine ⟨rfl, mt (onlyStrays_iff _).mp ?_⟩
          rw [show final.errors = after.errors ++ errors from noted]
          rw [firstFault] at found
          simp [firstFault, found]
      | exhausted => exact absurd run (Avoids.wholeExpression _ _ _ ended)

/-! ## The only sentence of a program -/

/-- The word of a program that comes to the sentence of an expression is that of the
expression and a semicolon. -/
theorem Body.phrase (body : Body [.exprStmt expr] (word ++ [semicolon]) strays) :
    Phrase .expression expr word strays := by
  generalize whole : word ++ [semicolon] = sentence at body
  cases body with
  | item clause others =>
      cases others
      rw [List.append_nil] at whole ⊢
      cases clause with
      | statement clause =>
          cases clause with
          | expression phrase _ =>
              obtain ⟨rfl, -⟩ := List.append_inj' whole rfl
              exact phrase

/-- A sentence is given up if its expression is, which has one level less. -/
theorem givesUp_exprSentence {first : Token} {others : List Token}
    (refused : leadsStatement first.kind = false)
    (givesUp : ∀ levels < limit, GivesUp (expression levels) (first :: others)) :
    GivesUp (statement limit) (first :: others) := by
  cases limit with
  | zero =>
      rw [statement_zero]
      exact .overNested _
  | succ levels =>
      have sentence : GivesUp (exprSentence (expression levels)) (first :: others) :=
        (givesUp levels (Nat.lt_succ_self levels)).bind fun _ =>
          (Orderly.sentenceEnd _).bind fun _ => Orderly.pure _
      rw [statement]
      exact GivesUp.after (takes_accept?_none refused others) sentence

/-- A program with no other reports than those of stray tokens is derived with them. -/
theorem body_of_onlyStrays {nodes : List Node} (source : IsSource word eof)
    (parsed : Parsed.ofProgram limit (word ++ [eof]) = ⟨nodes, diagnostics⟩)
    (onlyStrays : OnlyStrays diagnostics) :
    ∃ strays, Body nodes word strays ∧ diagnostics = strays.map strayReport := by
  have quiet : firstFault (syntaxErrors limit (word ++ [eof])) = none := by
    rw [← onlyStrays_iff, ← ofProgram_diagnostics, parsed]
    exact onlyStrays
  rcases source.cases with ⟨statements, strays, errors, body, reports, same⟩ |
    ⟨_, _, _, _, _, _, _, found, _⟩ | ⟨_, found, _⟩
  · obtain ⟨rfl, rfl⟩ := Parsed.mk.inj (parsed.symm.trans same)
    exact ⟨strays, body, reports.diagnostics_eq⟩
  · rw [quiet] at found
    cases found
  · rw [quiet] at found
    cases found

/-- A program that is derived is parsed to its statements, unless it is nested too
deeply. -/
theorem ofProgram_of_body {nodes : List Node} (body : Body nodes word strays)
    (isEnd : eof.kind = .eof)
    (shallow : ∀ diagnostic ∈ (Parsed.ofProgram limit (word ++ [eof])).diagnostics,
      diagnostic.message ≠ "Nesting too deep.") :
    Parsed.ofProgram limit (word ++ [eof]) = ⟨nodes, strays.map strayReport⟩ := by
  obtain ⟨depth, settles, _⟩ := body.settled
  have settled := settles limit [eof] (ended_singleton isEnd) (ending_singleton isEnd)
  by_cases fits : depth ≤ limit
  · obtain ⟨errors, reports, parsed⟩ := ofProgram_of_takes (settled.takes fits)
    rw [parsed, reports.diagnostics_eq]
  · obtain ⟨diagnostic, member, nested⟩ := exists_nested_of_givesUp (settled.givesUp fits)
    exact absurd nested (shallow diagnostic member)

/-- An expression is found on its own if it is found as a sentence. -/
theorem ofExpression_of_phrase (phrase : Phrase .expression expr word strays)
    (isEnd : eof.kind = .eof) (restEnded : Ended rest) (clear : Clear rest)
    (shallow : ∀ diagnostic ∈ (Parsed.ofProgram limit (word ++ rest)).diagnostics,
      diagnostic.message ≠ "Nesting too deep.") :
    Parsed.ofExpression limit (word ++ [eof]) = ⟨some expr, strays.map strayReport⟩ := by
  obtain ⟨depth, settles, _⟩ := phrase.settled
  have ended := ended_singleton isEnd
  by_cases fits : depth < limit
  · have takes := (settles limit [eof] ended
      (clear_of_kind isEnd (by simp) (by decide) [])).takes (by omega)
    obtain ⟨after, run, past⟩ := takes (Cursor.atStart (word ++ [eof])) rfl
    obtain ⟨errors, noted, reports⟩ := past.errors
    have whole := wholeExpression_eq_ok_iff.mpr ⟨run, eof, [], past.ahead, isEnd⟩
    rw [ofExpression_eq (loneExpression_apply_ok whole), Cursor.diagnostics, noted,
      ← reports.diagnostics_eq]
    rfl
  · obtain ⟨first, others, rfl, starts⟩ := phrase.head
    obtain ⟨noLead, notVar, isStart⟩ := starts.kind
    have givesUp := givesUp_exprSentence noLead fun levels below =>
      (settles levels rest restEnded clear).givesUp
        (Nat.not_le.mpr (Nat.lt_of_lt_of_le below (Nat.not_lt.mp fits)))
    obtain ⟨diagnostic, member, nested⟩ := nested_of_givesUp notVar isStart.1
      (restEnded.append_left (first :: others)) givesUp
    exact absurd nested (shallow diagnostic member)

/-! ## The two entries -/

/-- An expression on its own is found, with reports of stray tokens only, where the
program of its sentence comes to the sentence with the same reports.  Otherwise there
is no expression, and there is another report. -/
theorem entries_agree {eof' : Token} (inside : ∀ token ∈ word, token.kind ≠ .eof)
    (isSemicolon : semicolon.kind = .symbol .semicolon) (isEnd : eof.kind = .eof)
    (isEnd' : eof'.kind = .eof)
    (shallow : ∀ diagnostic ∈ (Parsed.ofProgram limit (word ++ [semicolon] ++ [eof'])).diagnostics,
      diagnostic.message ≠ "Nesting too deep.") :
    (∀ expr diagnostics, OnlyStrays diagnostics →
      (Parsed.ofExpression limit (word ++ [eof]) = ⟨some expr, diagnostics⟩ ↔
        Parsed.ofProgram limit (word ++ [semicolon] ++ [eof']) =
          ⟨[.exprStmt expr], diagnostics⟩)) ∧
    ((∀ expr diagnostics, OnlyStrays diagnostics →
        Parsed.ofExpression limit (word ++ [eof]) ≠ ⟨some expr, diagnostics⟩) →
      (Parsed.ofExpression limit (word ++ [eof])).result = none ∧
        ∃ diagnostic ∈ (Parsed.ofExpression limit (word ++ [eof])).diagnostics,
          diagnostic.message ≠ "Invalid assignment target.") := by
  have source : IsSource word eof := ⟨inside, isEnd⟩
  have sentenceSource : IsSource (word ++ [semicolon]) eof' := by
    refine ⟨List.forall_mem_append.mpr ⟨inside, ?_⟩, isEnd'⟩
    simp [isSemicolon]
  have outcome := ofExpression_cases limit ((ended_singleton isEnd).append_left word)
  constructor
  · intro expr diagnostics onlyStrays
    constructor
    · intro found
      rcases outcome with ⟨_, after, run, same, _⟩ | ⟨nothing, _⟩
      · obtain ⟨⟨⟩, rfl⟩ := Parsed.mk.inj (found.symm.trans same)
        obtain ⟨strays, phrase, reports⟩ := phrase_of_wholeExpression source run
        have body : Body [.exprStmt expr] (word ++ [semicolon] ++ []) (strays ++ []) :=
          .item (.statement (.expression phrase isSemicolon)) .empty
        rw [List.append_nil, List.append_nil] at body
        rw [ofProgram_of_body body isEnd' shallow, ← reports.diagnostics_eq]
        rfl
      · rw [found] at nothing
        cases nothing
    · intro parsed
      obtain ⟨strays, body, rfl⟩ := body_of_onlyStrays sentenceSource parsed onlyStrays
      rw [List.append_assoc] at shallow
      exact ofExpression_of_phrase body.phrase isEnd
        ((ended_singleton isEnd').append_left [semicolon]) (clear_semicolon isSemicolon [eof'])
        shallow
  · intro other
    rcases outcome with ⟨expr, after, _, same, onlyStrays⟩ | ⟨nothing, others⟩
    · exact absurd same (other expr _ onlyStrays)
    · exact ⟨nothing, by simpa [OnlyStrays] using others⟩

/-- The tokens `nil = nil`. -/
def strayAssignment : List Token :=
  [blankToken (.keyword .kwNil), blankToken (.symbol .equal), blankToken (.keyword .kwNil)]

/-- Both entries find the left side of `nil = nil`, and report its sign.  A semicolon
behind it is too much for one of them, and a sentence without an expression for the
other one. -/
theorem entries_agree_stray :
    let eof := blankToken .eof
    let semicolon := blankToken (.symbol .semicolon)
    let report := strayReport (blankToken (.symbol .equal))
    (Parsed.ofExpression 100 (strayAssignment ++ [eof]) = ⟨some (.literal .nil), [report]⟩ ∧
      Parsed.ofProgram 100 (strayAssignment ++ [semicolon] ++ [eof]) =
        ⟨[.exprStmt (.literal .nil)], [report]⟩) ∧
    (Parsed.ofExpression 100 (strayAssignment ++ [semicolon] ++ [eof])).result = none ∧
      ∃ diagnostic ∈
        (Parsed.ofExpression 100 (strayAssignment ++ [semicolon] ++ [eof])).diagnostics,
        diagnostic.message ≠ "Invalid assignment target." := by
  intro eof semicolon report
  have shallow : ∀ diagnostic ∈
      (Parsed.ofProgram 100 (strayAssignment ++ [semicolon] ++ [eof])).diagnostics,
        diagnostic.message ≠ "Nesting too deep." := by
    decide
  have shallow' : ∀ diagnostic ∈
      (Parsed.ofProgram 100 (strayAssignment ++ [semicolon] ++ [semicolon] ++ [eof])).diagnostics,
        diagnostic.message ≠ "Nesting too deep." := by
    decide
  have found : Parsed.ofExpression 100 (strayAssignment ++ [eof]) =
      ⟨some (.literal .nil), [report]⟩ := rfl
  have nothing :
      (Parsed.ofExpression 100 (strayAssignment ++ [semicolon] ++ [eof])).result = none := rfl
  have onlyStrays : OnlyStrays [report] := by simp [OnlyStrays, report, strayReport]
  refine ⟨⟨found, ?_⟩, ?_⟩
  · exact ((entries_agree (by decide) rfl rfl rfl shallow).1 _ _ onlyStrays).mp found
  · refine (entries_agree (by decide) rfl rfl rfl shallow').2 fun expr diagnostics _ same => ?_
    rw [same] at nothing
    cases nothing

end TreeWalker.Grammar
