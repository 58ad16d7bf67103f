import TreeWalker.Proofs.Grammar.Limit
import TreeWalker.Proofs.Grammar.Locality
import TreeWalker.Proofs.Grammar.Measure
import TreeWalker.Proofs.Grammar.Standing

/-!
# After a declaration that is nested too deeply

A declaration at the top of a program that is nested too deeply is given up at a
token of it, and reported there.  No block counts as open from then on, so that
parsing is resumed at the first semicolon or statement keyword that follows,
which may well be inside the declaration, or beyond it.  What is found from there
on is what the remaining tokens come to on their own.
-/

namespace TreeWalker.Grammar

variable {limit : Nat}

/-! ## The next boundary outside of blocks -/

/-- Whether a declaration may begin at a token, outside of blocks, after a token
of the given kind. -/
def mayBegin (last : Option TokenKind) (next : TokenKind) : Bool :=
  last == some (.symbol .semicolon) ||
    match next with
    | .eof => true
    | .keyword keyword => keyword.startsStatement
    | _ => false

/-- The tokens from the first one on at which a declaration may begin. -/
def fromBoundary : Option TokenKind → List Token → List Token
  | _, [] => []
  | last, token :: rest =>
    if mayBegin last token.kind then token :: rest else fromBoundary (some token.kind) rest

/-- The tokens from which on parsing is resumed, when a declaration has been given
up at a token of it, after the tokens in front.  The token at which a declaration
begins is skipped in any case. -/
def resumption (front : List Token) (token : Token) (rest : List Token) : List Token :=
  match front.getLast? with
  | none => fromBoundary (some token.kind) rest
  | some last => fromBoundary (some last.kind) (token :: rest)

theorem fromBoundary_suffix (last : Option TokenKind) (tokens : List Token) :
    fromBoundary last tokens <:+ tokens := by
  induction tokens generalizing last with
  | nil => exact List.suffix_refl []
  | cons token rest inductionHypothesis =>
      rw [fromBoundary]
      split
      · exact List.suffix_refl _
      · exact (inductionHypothesis _).trans (List.suffix_cons token rest)

theorem resumption_suffix (front : List Token) (token : Token) (rest : List Token) :
    resumption front token rest <:+ token :: rest := by
  rw [resumption]
  split
  · exact (fromBoundary_suffix _ rest).trans (List.suffix_cons token rest)
  · exact fromBoundary_suffix _ _

/-- The end of the source is a boundary. -/
theorem fromBoundary_ended (last : Option TokenKind) {tokens : List Token} (ended : Ended tokens) :
    Ended (fromBoundary last tokens) := by
  induction tokens generalizing last with
  | nil => exact absurd rfl ended.ne_nil
  | cons token rest inductionHypothesis =>
      rw [fromBoundary]
      split
      · exact ended
      · next goesOn =>
          exact inductionHypothesis _ (ended.tail fun isEnd => goesOn (by simp [mayBegin, isEnd]))

theorem resumption_ended (front : List Token) {token : Token} {rest : List Token}
    (ended : Ended rest) : Ended (resumption front token rest) := by
  rw [resumption]
  split
  · exact fromBoundary_ended _ ended
  · exact fromBoundary_ended _ (ended.append_left [token])

section Recovery

variable {cursor : Cursor} {tokens : List Token}

theorem atBoundary_eq_mayBegin (closed : cursor.openBlocks = 0) (next : TokenKind) :
    atBoundary cursor next = mayBegin cursor.last next := by
  unfold atBoundary mayBegin
  congr 1
  split <;> simp [closed]

/-- A cursor outside of blocks has found a boundary. -/
structure Cursor.Resumes (cursor : Cursor) (tokens : List Token) (errors : List SyntaxError) :
    Prop where
  ahead : cursor.ahead = tokens
  closed : cursor.openBlocks = 0
  errors : cursor.errors = errors

theorem skipToBoundary_resumes (ahead : cursor.ahead = tokens) (ended : Ended tokens)
    (closed : cursor.openBlocks = 0) :
    ∃ after, skipToBoundary tokens cursor = .ok () after ∧
      after.Resumes (fromBoundary cursor.last tokens) cursor.errors := by
  induction tokens generalizing cursor with
  | nil => exact absurd rfl ended.ne_nil
  | cons token rest inductionHypothesis =>
      rw [skipToBoundary, fromBoundary, get_bind_apply, atBoundary_eq_mayBegin closed]
      by_cases boundary : mayBegin cursor.last token.kind = true
      · rw [if_pos boundary, if_pos boundary]
        exact ⟨cursor, rfl, ahead, closed, rfl⟩
      · rw [if_neg boundary, if_neg boundary, bind_apply_ok (passToken_apply ahead)]
        have inside : token.kind ≠ .eof := fun isEnd => boundary (by simp [mayBegin, isEnd])
        have further : (cursor.after token rest).ahead = rest := rfl
        exact inductionHypothesis further (ended.tail inside) closed

variable {front rest : List Token} {token : Token}

theorem recover_resumes (split : cursor.ahead = token :: rest) (inside : token.kind ≠ .eof)
    (ended : Ended rest) (closed : cursor.openBlocks = 0) (place : cursor.position = front.length)
    (last : cursor.last = front.getLast?.map Token.kind) :
    ∃ after, recover 0 cursor = .ok () after ∧
      after.Resumes (resumption front token rest) cursor.errors := by
  rw [recover_apply split, resumption]
  cases found : front.getLast? with
  | none =>
      have empty : front = [] := List.getLast?_eq_none_iff.mp found
      subst empty
      rw [if_pos (by simp [place, inside])]
      have further : (cursor.after token rest).ahead = rest := rfl
      exact skipToBoundary_resumes further ended closed
  | some before =>
      have moved : front.length ≠ 0 := by
        rw [Ne, List.length_eq_zero_iff]
        rintro rfl
        cases found
      have resumed := skipToBoundary_resumes split (ended.append_left [token]) closed
      rw [last, found] at resumed
      rw [if_neg (by simp [place, moved])]
      exact resumed

theorem abandon_resumes (split : cursor.ahead = token :: rest) (inside : token.kind ≠ .eof)
    (ended : Ended rest) (place : cursor.position = front.length)
    (last : cursor.last = front.getLast?.map Token.kind) :
    ∃ after, abandon 0 cursor = .ok () after ∧
      after.Resumes (resumption front token rest)
        (cursor.errors ++ [⟨cursor.position, token, .nesting⟩]) := by
  rw [abandon, bind_apply_ok (noteNext_apply split .nesting)]
  let noted : Cursor := { cursor.blaming token .nesting with openBlocks := 0 }
  have notedSplit : noted.ahead = token :: rest := split
  exact recover_resumes notedSplit inside ended rfl place last

end Recovery

/-! ## The rest of a program -/

/-- The report of a declaration that was given up at a token. -/
def nestingReport (token : Token) : Diagnostic :=
  ⟨.parse, token.line, SyntaxError.place token, "Nesting too deep."⟩

/-- Where a cursor stands outside of blocks, parsing goes on as if the tokens ahead
were all there are. -/
theorem Cursor.Resumes.goesOn {cursor : Cursor} {tokens : List Token} {errors : List SyntaxError}
    (resumes : cursor.Resumes tokens errors) (ended : Ended tokens) (levels : Nat) :
    let resumed := parseWith (program levels) [] tokens
    ∃ final, program levels cursor = .ok resumed.result final ∧
      final.diagnostics = errors.map SyntaxError.diagnostic ++ resumed.diagnostics := by
  let setting : Setting := ⟨cursor.position, cursor.last, errors, []⟩
  have stands : setting.place (Cursor.atStart tokens) = cursor := by
    rcases cursor with ⟨ahead, position, last, openBlocks, noted⟩
    rcases resumes with ⟨rfl, closed, rfl⟩
    cases closed
    simp [setting, Setting.place, Cursor.atStart]
  rcases succeeds_program levels (Cursor.atStart tokens) ended with ⟨statements, after, run⟩
  have alone := Local.program levels setting (Cursor.atStart tokens) ended
  rw [stands, run] at alone
  rw [parseWith, run]
  exact ⟨setting.place after, alone, setting.diagnostics_place after⟩

section Programs

variable {levels : Nat} {front rest : List Token} {token : Token} {after : Cursor}

/-- A program is its first item and the rest of it. -/
theorem program_apply_item {cursor : Cursor} {found : Option Node}
    (run : topDeclaration levels cursor = .ok found after) (split : cursor.ahead = token :: rest)
    (inside : token.kind ≠ .eof) (ended : Ended cursor.ahead) :
    program levels cursor =
      (program levels >>= fun nodes => pure (found.toList ++ nodes)) after := by
  rw [program, many_eq, collectAll_apply_item (Orderly.topDeclaration levels)
    (proceeds_topDeclaration levels) split (by simpa [endsSource] using inside) ended,
    bind_apply_ok run, collectAll, get_bind_apply, collect_collected, bind_apply, bind_apply,
    collectAll, get_bind_apply]
  cases found <;> rfl

/-- Where a program stands outside of blocks after its first item, the rest of it
comes to what the tokens ahead come to on their own. -/
theorem parseWith_item {others : List Token} {found : Option Node}
    {errors : List SyntaxError}
    (run : topDeclaration levels (Cursor.atStart (token :: rest)) = .ok found after)
    (inside : token.kind ≠ .eof) (ended : Ended (token :: rest))
    (resumes : after.Resumes others errors) (othersEnded : Ended others) :
    parseWith (program levels) [] (token :: rest) =
      let resumed := parseWith (program levels) [] others
      ⟨found.toList ++ resumed.result,
        errors.map SyntaxError.diagnostic ++ resumed.diagnostics⟩ := by
  obtain ⟨final, goesOn, told⟩ := resumes.goesOn othersEnded levels
  have split : (Cursor.atStart (token :: rest)).ahead = token :: rest := rfl
  rw [parseWith, program_apply_item run split inside ended, bind_apply_ok goesOn]
  dsimp only
  rw [← told]
  rfl

/-- A program goes on at the next boundary after its first declaration has been
given up. -/
theorem parseWith_abandoned
    (deep : declaration levels (Cursor.atStart (front ++ token :: rest)) =
      .error .overNested after)
    (ahead : after.ahead = token :: rest) (inside : token.kind ≠ .eof) (ended : Ended rest) :
    parseWith (program levels) [] (front ++ token :: rest) =
      let resumed := parseWith (program levels) [] (resumption front token rest)
      ⟨resumed.result, after.diagnostics ++ nestingReport token :: resumed.diagnostics⟩ := by
  have whole : Ended (front ++ token :: rest) := (ended.append_left [token]).append_left front
  have leads := Orderly.declaration levels (Cursor.atStart (front ++ token :: rest))
  have stands := Keeps.declaration (lasting_standsIn (front ++ token :: rest)).enduring levels _
    (Cursor.standsIn_atStart _)
  rw [deep] at leads stands
  obtain ⟨passed, split, _, frontInside⟩ := leads.passes
  obtain ⟨passed', split', place, last⟩ := stands
  rw [cursorOf_error, ahead] at split split'
  have same : front = passed := List.append_cancel_right split
  have same' : front = passed' := List.append_cancel_right split'
  subst same same'
  obtain ⟨next, others, isFirst⟩ := whole.exists_cons
  have firstInside : next.kind ≠ .eof := by
    cases front with
    | nil =>
        cases isFirst
        exact inside
    | cons _ _ =>
        cases isFirst
        exact frontInside _ List.mem_cons_self
  obtain ⟨resumed, abandoned, resumes⟩ := abandon_resumes ahead inside ended place last
  have item : topDeclaration levels (Cursor.atStart (front ++ token :: rest)) =
      .ok none resumed := by
    rw [topDeclaration_apply, abandoning_apply_overNested deep]
    exact bind_apply_ok abandoned
  rw [isFirst] at item whole ⊢
  rw [parseWith_item item firstInside whole resumes (resumption_ended front ended)]
  dsimp only
  rw [List.map_append, List.append_assoc]
  rfl

end Programs

/-! ## Declarations that are nested too deeply -/

section Declarations

variable {levels : Nat} {node : Node} {nodes : List Node} {word more : List Token} {eof : Token}
  {after : Cursor}

/-- A declaration in front of a program is given up at one of its tokens, without
a report. -/
theorem Clause.given_up (clause : Clause .declaration node word []) (source : IsSource more eof)
    (bodyMore : Body nodes more [])
    (deep : declaration levels (Cursor.atStart (word ++ (more ++ [eof]))) =
      .error .overNested after) :
    ∃ front token back, word = front ++ token :: back ∧
      after.ahead = token :: (back ++ (more ++ [eof])) ∧ after.errors = [] := by
  have isEnd := source.isEnd
  have restEnded : Ended (more ++ [eof]) := (ended_singleton isEnd).append_left more
  have wholeEnded := restEnded.append_left word
  obtain ⟨depth, settles, _⟩ := Clause.settled clause
  let bound := max depth levels
  have stopped := bodyMore.stopped_before (itemizes_topDeclaration bound) (ending_singleton isEnd)
    node
  have takes := (settles bound _ restEnded stopped).takes (Nat.le_max_left depth levels)
  obtain ⟨final, taken, past⟩ := takes (Cursor.atStart (word ++ (more ++ [eof]))) rfl
  rcases past.errors with ⟨errors, noted, reports⟩
  have nothing : errors = [] := List.map_eq_nil_iff.mp reports
  subst nothing
  have quiet : final.errors = (Cursor.atStart (word ++ (more ++ [eof]))).errors := noted
  rcases (Curtails.declaration (Nat.le_max_right depth levels)).stops _ _ _ wholeEnded taken quiet
    with same | ⟨stop, stops, leadsOn, before⟩
  · rw [deep] at same
    cases same
  · rw [deep] at stops
    cases stops
    have leads := Orderly.declaration levels (Cursor.atStart (word ++ (more ++ [eof])))
    rw [deep] at leads
    obtain ⟨front, split, _⟩ := leads.passes
    obtain ⟨rest, splitRest, _⟩ := leadsOn.passes
    rw [past.ahead] at splitRest before
    cases rest with
    | nil =>
        rw [splitRest] at before
        exact absurd before (Nat.lt_irrefl _)
    | cons token back =>
        refine ⟨front, token, back, ?_, splitRest, (leads.quiet leadsOn quiet).1⟩
        rw [cursorOf_error, splitRest] at split
        exact List.append_cancel_right (split.trans (List.append_assoc _ _ _).symm)

/-- A declaration that is nested too deeply, in front of a program, is reported at
one of its tokens, and nothing in front of that token is seen again.  What comes
next is what the tokens from the next boundary on come to: the program that
follows, without another report, exactly if the boundary is the end of the
declaration. -/
theorem abandonment_resumes (clause : Clause .declaration node word []) (source : IsSource more eof)
    (parsedMore : parseWith (program levels) [] (more ++ [eof]) = ⟨nodes, []⟩)
    (deep : declaration levels (Cursor.atStart (word ++ (more ++ [eof]))) =
      .error .overNested after) :
    ∃ front token back, word = front ++ token :: back ∧
      after.ahead = token :: (back ++ (more ++ [eof])) ∧
      let left := resumption front token (back ++ (more ++ [eof]))
      let resumed := parseWith (program levels) [] left
      parseWith (program levels) [] (word ++ (more ++ [eof])) =
          ⟨resumed.result, nestingReport token :: resumed.diagnostics⟩ ∧
        (parseWith (program levels) [] (word ++ (more ++ [eof])) = ⟨nodes, [nestingReport token]⟩ ↔
          left = more ++ [eof]) := by
  have bodyMore := source.body parsedMore
  obtain ⟨front, token, back, rfl, ahead, quiet⟩ := clause.given_up source bodyMore deep
  have wordInside := clause.inside
  have inside : token.kind ≠ .eof := wordInside token (by simp)
  have restEnded : Ended (back ++ (more ++ [eof])) :=
    ((ended_singleton source.isEnd).append_left more).append_left back
  have assoc : (front ++ token :: back) ++ (more ++ [eof]) =
      front ++ token :: (back ++ (more ++ [eof])) := by
    rw [List.append_assoc]
    rfl
  rw [assoc] at deep ⊢
  have whole := parseWith_abandoned deep ahead inside restEnded
  have noReport : after.diagnostics = [] := by rw [Cursor.diagnostics, quiet]; rfl
  dsimp only at whole
  rw [noReport, List.nil_append] at whole
  refine ⟨front, token, back, rfl, ahead, whole, ?_⟩
  rw [whole]
  constructor
  · intro same
    obtain ⟨result, reports⟩ := Parsed.mk.inj same
    have suffix := resumption_suffix front token (back ++ (more ++ [eof]))
    have sourceWhole : IsSource (token :: back ++ more) eof := by
      refine ⟨fun other member => ?_, source.isEnd⟩
      rcases List.mem_append.mp member with before | later
      · exact wordInside other (List.mem_append_right front before)
      · exact source.inside other later
    obtain ⟨rest, isRest, sourceRest⟩ := sourceWhole.of_suffix (by simpa using suffix)
      (resumption_ended front restEnded)
    rw [isRest] at suffix result reports ⊢
    refine eq_of_parsed sourceRest source suffix ⟨token :: back, rfl⟩ ?_ parsedMore
    rw [← result, ← (List.cons.inj reports).2]
  · intro same
    rw [same, parsedMore]

/-- The block `{ print nil; }`. -/
def nestedPrint : List Token :=
  [blankToken (.symbol .leftBrace), blankToken (.keyword .kwPrint), blankToken (.keyword .kwNil),
    blankToken (.symbol .semicolon), blankToken (.symbol .rightBrace)]

/-- The sentence `print nil;`. -/
def plainPrint : List Token :=
  [blankToken (.keyword .kwPrint), blankToken (.keyword .kwNil), blankToken (.symbol .semicolon)]

/-- With three levels, the block is given up at its `nil`. -/
theorem abandonment_resumes_in_block :
    ∃ front token back, nestedPrint = front ++ token :: back ∧
      token :: (back ++ (plainPrint ++ [blankToken .eof])) =
        nestedPrint.drop 2 ++ (plainPrint ++ [blankToken .eof]) ∧
      let left := resumption front token (back ++ (plainPrint ++ [blankToken .eof]))
      let resumed := parseWith (program 3) [] left
      parseWith (program 3) [] (nestedPrint ++ (plainPrint ++ [blankToken .eof])) =
          ⟨resumed.result, nestingReport token :: resumed.diagnostics⟩ ∧
        (parseWith (program 3) [] (nestedPrint ++ (plainPrint ++ [blankToken .eof])) =
            ⟨[.printStmt (.literal .nil)], [nestingReport token]⟩ ↔
          left = plainPrint ++ [blankToken .eof]) := by
  have sentence : Clause .declaration (.printStmt (.literal .nil)) plainPrint [] :=
    .statement (.print rfl Phrase.exists_expression rfl)
  have clause : Clause .declaration (.blockStmt [.printStmt (.literal .nil)]) nestedPrint [] :=
    .statement (.block rfl (.item sentence .empty) rfl)
  have deep : declaration 3 (Cursor.atStart (nestedPrint ++ (plainPrint ++ [blankToken .eof]))) =
      .error .overNested ⟨nestedPrint.drop 2 ++ (plainPrint ++ [blankToken .eof]), 2,
        some (.keyword .kwPrint), 1, []⟩ := by
    rfl
  obtain ⟨front, token, back, whole, ahead, rest⟩ :=
    abandonment_resumes clause ⟨by decide, rfl⟩ rfl deep
  exact ⟨front, token, back, whole, ahead.symm, rest⟩

end Declarations

/-! ## Deep blocks -/

/-- A brace that opens a block. -/
def opening : Token :=
  blankToken (.symbol .leftBrace)

/-- A brace that closes a block. -/
def closing : Token :=
  blankToken (.symbol .rightBrace)

/-- A word in so many blocks. -/
def enclosed (count : Nat) (word : List Token) : List Token :=
  List.replicate count opening ++ (word ++ List.replicate count closing)

theorem enclosed_succ (count : Nat) (word : List Token) :
    enclosed (count + 1) word = opening :: (enclosed count word ++ [closing]) := by
  rw [enclosed, enclosed, List.replicate_succ, List.replicate_succ' (a := closing)]
  simp

/-- Blocks around a statement are a statement. -/
theorem Clause.enclosed {node : Node} {word : List Token}
    (clause : Clause .statement node word []) (count : Nat) :
    ∃ node, Clause .statement node (enclosed count word) [] := by
  induction count with
  | zero =>
      refine ⟨node, ?_⟩
      simpa [Grammar.enclosed] using clause
  | succ count inductionHypothesis =>
      obtain ⟨inner, innerClause⟩ := inductionHypothesis
      have body : Clause .body (.blockStmt [inner]) (Grammar.enclosed count word ++ [])
          ([] ++ []) :=
        .item (.statement innerClause) .empty
      rw [List.append_nil] at body
      rw [enclosed_succ]
      exact ⟨.blockStmt [inner], .block rfl body rfl⟩

section DeepBlocks

variable {cursor : Cursor} {next : Token} {others : List Token}

/-- A token that is an item of a block begins one, also behind other blocks. -/
theorem exists_item (others : List Token) (isItem : endsBlock next.kind = false)
    (notVar : next.kind ≠ .keyword .kwVar) (count : Nat) :
    ∃ first tail, List.replicate count opening ++ next :: others = first :: tail ∧
      endsBlock first.kind = false ∧ first.kind ≠ .keyword .kwVar := by
  cases count with
  | zero => exact ⟨next, others, rfl, isItem, notVar⟩
  | succ count =>
      exact ⟨opening, _, by rw [List.replicate_succ, List.cons_append], rfl, by decide⟩

/-- As many blocks as there are levels are entered, and no more. -/
theorem statement_openings {levels : Nat} (isItem : endsBlock next.kind = false)
    (notVar : next.kind ≠ .keyword .kwVar)
    (split : cursor.ahead = List.replicate levels opening ++ next :: others) :
    ∃ after, statement levels cursor = .error .overNested after ∧ after.ahead = next :: others := by
  induction levels generalizing cursor with
  | zero => exact ⟨cursor, rfl, split⟩
  | succ levels inductionHypothesis =>
      obtain ⟨first, tail, inner, firstItem, firstNotVar⟩ :=
        exists_item others isItem notVar levels
      rw [List.replicate_succ, List.cons_append, inner] at split
      let entered : Cursor :=
        { cursor.after opening (first :: tail) with openBlocks := cursor.openBlocks + 1 }
      have enteredSplit : entered.ahead = List.replicate levels opening ++ next :: others :=
        inner.symm
      obtain ⟨after, stops, ahead⟩ := inductionHypothesis enteredSplit
      have bare : bareDeclaration (expression levels) (statement levels) entered =
          .error .overNested after := by
        rw [bareDeclaration, bind_apply_ok (accept?_apply_none
          (show entered.ahead = first :: tail from rfl) (by simpa using firstNotVar))]
        exact stops
      have item : declaration levels entered = .error .overNested after := by
        rw [declaration, declarationOf_apply]
        exact recovering_apply_error bare (by simp)
      have items : many endsBlock (declaration levels) entered = .error .overNested after := by
        rw [many, get_bind_apply]
        exact (collect_apply_item rfl firstItem _).trans (bind_apply_error item)
      have block : blockRest (declaration levels) (cursor.after opening (first :: tail)) =
          .error .overNested after := by
        change (many endsBlock (declaration levels) >>= _) entered = _
        exact bind_apply_error items
      refine ⟨after, ?_, ahead⟩
      rw [statement, statementOf, bind_apply_ok (accept?_apply_some split rfl)]
      exact block

/-- Braces that open blocks are no boundaries. -/
theorem fromBoundary_openings (count : Nat) (tokens : List Token) :
    fromBoundary (some opening.kind) (List.replicate count opening ++ tokens) =
      fromBoundary (some opening.kind) tokens := by
  induction count with
  | zero => rfl
  | succ count inductionHypothesis =>
      rw [List.replicate_succ, List.cons_append, fromBoundary, if_neg (by decide)]
      exact inductionHypothesis

/-- A declaration in more blocks than there are levels is given up at a brace. -/
theorem declaration_openings (levels : Nat) (next : Token) (others : List Token)
    (isItem : endsBlock next.kind = false) (notVar : next.kind ≠ .keyword .kwVar) :
    ∃ after,
      declaration levels (Cursor.atStart (List.replicate levels opening ++ next :: others)) =
        .error .overNested after ∧ after.ahead = next :: others := by
  obtain ⟨first, tail, isFirst, _, firstNotVar⟩ :=
    exists_item others isItem notVar levels
  let cursor := Cursor.atStart (List.replicate levels opening ++ next :: others)
  have split : cursor.ahead = first :: tail := isFirst
  obtain ⟨after, stops, ahead⟩ := statement_openings isItem notVar
    (show cursor.ahead = List.replicate levels opening ++ next :: others from rfl)
  refine ⟨after, ?_, ahead⟩
  rw [declaration, declarationOf_apply]
  refine recovering_apply_error ?_ (by simp)
  rw [bareDeclaration, bind_apply_ok (accept?_apply_none split (by simpa using firstNotVar))]
  exact stops

theorem resumption_openings (count extra : Nat) (tokens : List Token) :
    resumption (List.replicate count opening) opening (List.replicate extra opening ++ tokens) =
      fromBoundary (some opening.kind) tokens := by
  rw [resumption, List.getLast?_replicate]
  cases count with
  | zero => exact fromBoundary_openings extra tokens
  | succ count => exact fromBoundary_openings (extra + 1) tokens

end DeepBlocks

theorem enclosed_append (count extra : Nat) (word rest : List Token) :
    enclosed (count + (extra + 1)) word ++ rest =
      List.replicate count opening ++ opening :: (List.replicate extra opening ++
        (word ++ (List.replicate (count + (extra + 1)) closing ++ rest))) := by
  rw [enclosed, List.replicate_add count (extra + 1) opening, List.replicate_succ]
  simp only [List.append_assoc, List.cons_append]

/-- A sentence inside of too many blocks is found, and the brace after it is blamed:
the outcome is never that of the sentence that follows, with one report. -/
theorem enclosed_leaks {levels : Nat} {nodes : List Node}
    (parsed : parseWith (program levels) [] (plainPrint ++ [blankToken .eof]) = ⟨nodes, []⟩)
    (extra : Nat) (report : Diagnostic) :
    parseWith (program levels) []
        (enclosed (levels + (extra + 1)) plainPrint ++ (plainPrint ++ [blankToken .eof])) ≠
      ⟨nodes, [report]⟩ := by
  intro same
  let back := List.replicate (levels + (extra + 1)) closing ++ plainPrint
  have source : IsSource plainPrint (blankToken .eof) := ⟨by decide, rfl⟩
  have sourceLeft : IsSource (plainPrint ++ back) (blankToken .eof) := by
    refine ⟨fun token member => ?_, rfl⟩
    rcases List.mem_append.mp member with before | later
    · exact source.inside token before
    · rcases List.mem_append.mp later with braces | after
      · rw [List.eq_of_mem_replicate braces]
        decide
      · exact source.inside token after
  have ended : Ended (List.replicate extra opening ++ (plainPrint ++ back ++ [blankToken .eof])) :=
    ((ended_singleton rfl).append_left _).append_left _
  have split : enclosed (levels + (extra + 1)) plainPrint ++ (plainPrint ++ [blankToken .eof]) =
      List.replicate levels opening ++
        opening :: (List.replicate extra opening ++ (plainPrint ++ back ++ [blankToken .eof])) := by
    rw [enclosed_append]
    simp only [back, List.append_assoc]
  rw [split] at same
  obtain ⟨after, deep, ahead⟩ := declaration_openings levels opening
    (List.replicate extra opening ++ (plainPrint ++ back ++ [blankToken .eof])) rfl (by decide)
  have whole := parseWith_abandoned deep ahead (by decide) ended
  have left : resumption (List.replicate levels opening) opening
      (List.replicate extra opening ++ (plainPrint ++ back ++ [blankToken .eof])) =
        plainPrint ++ back ++ [blankToken .eof] := by
    rw [resumption_openings]
    rfl
  rw [left, same] at whole
  obtain ⟨result, reports⟩ := Parsed.mk.inj whole
  have count := congrArg List.length reports
  simp only [List.length_append, List.length_cons, List.length_nil] at count
  have quiet :
      (parseWith (program levels) [] (plainPrint ++ back ++ [blankToken .eof])).diagnostics = [] :=
    List.eq_nil_of_length_eq_zero (by omega)
  have parsedLeft : parseWith (program levels) [] (plainPrint ++ back ++ [blankToken .eof]) =
      ⟨nodes, []⟩ :=
    congrArg₂ Parsed.mk result.symm quiet
  have suffix : plainPrint ++ [blankToken .eof] <:+ plainPrint ++ back ++ [blankToken .eof] :=
    ⟨plainPrint ++ List.replicate (levels + (extra + 1)) closing, by simp [back]⟩
  have equal := congrArg List.length
    (eq_of_parsed sourceLeft source (List.suffix_refl _) suffix parsedLeft parsed)
  simp only [List.length_append, back, List.length_replicate] at equal
  omega

/-- In two thousand blocks and with a thousand levels the sentence is found, although its
declaration is nested too deeply. -/
theorem enclosed_leaks_at_limit :
    (∃ node, Clause .declaration node (enclosed 2000 plainPrint) []) ∧
    Parsed.ofProgram 1000 (plainPrint ++ [blankToken .eof]) = ⟨[.printStmt (.literal .nil)], []⟩ ∧
    (∃ after, declaration 1000
      (Cursor.atStart (enclosed 2000 plainPrint ++ (plainPrint ++ [blankToken .eof]))) =
        .error .overNested after) ∧
    ∀ report,
      Parsed.ofProgram 1000 (enclosed 2000 plainPrint ++ (plainPrint ++ [blankToken .eof])) ≠
        ⟨[.printStmt (.literal .nil)], [report]⟩ := by
  have sentence : Clause .statement (.printStmt (.literal .nil)) plainPrint [] :=
    .print rfl Phrase.exists_expression rfl
  have parsed : Parsed.ofProgram 1000 (plainPrint ++ [blankToken .eof]) =
      ⟨[.printStmt (.literal .nil)], []⟩ := by
    rfl
  have count : 2000 = 1000 + (999 + 1) := rfl
  refine ⟨?_, parsed, ?_, fun report => ?_⟩
  · obtain ⟨node, clause⟩ := sentence.enclosed 2000
    exact ⟨node, .statement clause⟩
  · rw [count, enclosed_append]
    obtain ⟨after, deep, _⟩ := declaration_openings 1000 opening _ rfl (by decide)
    exact ⟨after, deep⟩
  · rw [count]
    exact enclosed_leaks parsed 999 report

end TreeWalker.Grammar
