import TreeWalker.Proofs.Grammar.Abandonment
import TreeWalker.Proofs.Grammar.Concatenation
import TreeWalker.Proofs.Grammar.Rejection

/-!
# After a missing semicolon

Where a declaration lacks the semicolon at its end, it is dropped, and nothing else
is.  The token in the place of the semicolon is reported.  If a statement begins
there, or if the open block ends there, recovery does not move: at the top of a
program, what follows is parsed as if it stood alone, and in a block the declarations
before it are kept and the block is closed.
-/

namespace TreeWalker.Grammar

/-! ## Where recovery stays -/

/-- Parsing may go on at a token of this kind in so many open blocks. -/
def Bounds (kind : TokenKind) (openBlocks : Nat) : Prop :=
  ∀ cursor : Cursor, cursor.openBlocks = openBlocks → atBoundary cursor kind = true

theorem bounds_keyword {keyword : Keyword} (starts : keyword.startsStatement = true)
    (openBlocks : Nat) : Bounds (.keyword keyword) openBlocks := by
  intro cursor _
  simp [atBoundary, starts]

theorem bounds_rightBrace {openBlocks : Nat} (inside : 0 < openBlocks) :
    Bounds (.symbol .rightBrace) openBlocks := by
  intro cursor count
  simp [atBoundary, count, inside]

/-- Neither a keyword that begins a statement nor a brace makes an expression a
longer one. -/
theorem clear_of_startsStatement {token : Token} {keyword : Keyword}
    (isKeyword : token.kind = .keyword keyword) (starts : keyword.startsStatement = true)
    (rest : List Token) : Clear (token :: rest) := by
  refine clear_of_kind isKeyword (by simp) ?_ rest
  cases keyword <;> simp_all [Keyword.startsStatement, Level.all, Level.accepts]

theorem clear_rightBrace {token : Token} (isClosing : token.kind = .symbol .rightBrace)
    (rest : List Token) : Clear (token :: rest) :=
  clear_of_kind isClosing (by simp) (by decide) rest

section Recovery

variable {limit : Nat} {cursor : Cursor} {word rest : List Token} {token : Token} {fault : Fault}

/-- A declaration that is rejected at a boundary is dropped, and the boundary is next. -/
theorem declaration_rejected
    (rejects : Rejects (plainDeclaration limit) word [] token fault rest) (some : word ≠ [])
    (split : cursor.ahead = word ++ token :: rest) (bounds : Bounds token.kind cursor.openBlocks) :
    ∃ stopped, declaration limit cursor = .ok none (stopped.blaming token fault) ∧
      cursor.Past word [] (token :: rest) stopped ∧ stopped.openBlocks = cursor.openBlocks := by
  obtain ⟨stopped, run, past⟩ := rejects cursor split
  have closed : LeavesOpen cursor.openBlocks (plainDeclaration limit cursor) :=
    Balanced.bareDeclaration (.expression limit) (.statement limit) cursor
  rw [run] at closed
  have ahead : (stopped.blaming token fault).ahead = token :: rest := past.ahead
  have moved : (stopped.blaming token fault).position ≠ cursor.position := by
    have further := List.length_pos_iff.mpr some
    have place : (stopped.blaming token fault).position = cursor.position + word.length :=
      past.position
    omega
  refine ⟨stopped, ?_, past, closed⟩
  rw [declaration, declarationOf_apply, recovering_apply_rejected run]
  have recovers : recover cursor.position (stopped.blaming token fault) =
      .ok () (stopped.blaming token fault) := by
    rw [recover_apply_moved ahead moved]
    exact skipToBoundary_apply_boundary (bounds _ closed) rest
  exact bind_apply_ok recovers

end Recovery

/-! ## The end of a program -/

/-- The report of a semicolon that is missing in front of a token. -/
def semicolonReport (sentence : Sentence) (token : Token) : Diagnostic :=
  ⟨.parse, token.line, SyntaxError.place token, (Fault.semicolonAfter sentence).message⟩

/-- The outcome of tokens that come after the given statements and one report. -/
def Parsed.behind (statements : List Node) (report : Diagnostic) (alone : Parsed (List Node)) :
    Parsed (List Node) :=
  ⟨statements ++ alone.result, report :: alone.diagnostics⟩

section Programs

variable {levels : Nat} {word rest : List Token} {token : Token} {sentence : Sentence}

/-- A declaration that is rejected at the top of a program, where a statement begins,
leaves a report and nothing else. -/
theorem parseWith_rejected {keyword : Keyword}
    (rejects : Rejects (plainDeclaration levels) word [] token (.semicolonAfter sentence) rest)
    (some : word ≠ []) (inside : ∀ token ∈ word, token.kind ≠ .eof)
    (isKeyword : token.kind = .keyword keyword) (starts : keyword.startsStatement = true)
    (ended : Ended rest) :
    parseWith (program levels) [] (word ++ token :: rest) =
      (parseWith (program levels) [] (token :: rest)).behind []
        (semicolonReport sentence token) := by
  have restEnded : Ended (token :: rest) := ended.append_left [token]
  have whole := restEnded.append_left word
  obtain ⟨first, others, rfl⟩ := List.exists_cons_of_ne_nil some
  have split : (Cursor.atStart (first :: others ++ token :: rest)).ahead =
      first :: others ++ token :: rest := rfl
  obtain ⟨stopped, run, past, closed⟩ := declaration_rejected rejects some split
    (isKeyword ▸ bounds_keyword starts _)
  have item : topDeclaration levels (Cursor.atStart (first :: (others ++ token :: rest))) =
      .ok none (stopped.blaming token (.semicolonAfter sentence)) := by
    rw [topDeclaration_apply]
    exact abandoning_apply_ok run
  have resumes : (stopped.blaming token (.semicolonAfter sentence)).Resumes (token :: rest)
      [⟨stopped.position, token, .semicolonAfter sentence⟩] := by
    refine ⟨past.ahead, closed, ?_⟩
    rw [Cursor.blaming, past.errors_eq]
    rfl
  exact parseWith_item item (inside first List.mem_cons_self) whole resumes restEnded

end Programs

/-! ## The end of a block -/

/-- The braces of a block. -/
structure Braces where
  opening : Token
  closing : Token
  isOpening : opening.kind = .symbol .leftBrace
  isClosing : closing.kind = .symbol .rightBrace

/-- The tokens of a block, and those after it. -/
def Braces.around (braces : Braces) (body rest : List Token) : List Token :=
  braces.opening :: (body ++ braces.closing :: rest)

theorem Braces.around_ended (braces : Braces) {body rest : List Token} (ended : Ended rest) :
    Ended (braces.around body rest) :=
  (ended.append_left [braces.closing]).append_left (braces.opening :: body)

section Blocks

variable {limit : Nat} {nodes : List Node} {body word rest : List Token} {braces : Braces}
  {sentence : Sentence} {cursor : Cursor}

/-- Where a cursor is after a block that lacks a semicolon in front of its end. -/
def Cursor.behindBlock (cursor : Cursor) (braces : Braces) (body rest : List Token)
    (sentence : Sentence) : Cursor :=
  { cursor with
    ahead := rest
    position := cursor.position + (body.length + 2)
    last := some (.symbol .rightBrace)
    errors := cursor.errors ++
      [⟨cursor.position + (body.length + 1), braces.closing, .semicolonAfter sentence⟩] }

/-- A declaration that is rejected at the end of the open block is dropped, and the
declarations before it are kept. -/
theorem many_rejected (declared : Declared limit nodes body)
    (rejects : Rejects (plainDeclaration limit) word [] braces.closing (.semicolonAfter sentence)
      rest)
    (begins : ∃ first others, word = first :: others ∧ startsDeclaration first.kind)
    (ended : Ended rest) (split : cursor.ahead = body ++ (word ++ braces.closing :: rest))
    (inside : 0 < cursor.openBlocks) :
    ∃ stopped, many endsBlock (declaration limit) cursor =
        .ok nodes (stopped.blaming braces.closing (.semicolonAfter sentence)) ∧
      cursor.Past (body ++ word) [] (braces.closing :: rest) stopped ∧
      stopped.openBlocks = cursor.openBlocks := by
  have itemizes := itemizes_declaration limit
  obtain ⟨first, others, rfl, starts⟩ := begins
  have restEnded : Ended (first :: others ++ braces.closing :: rest) :=
    (ended.append_left [braces.closing]).append_left (first :: others)
  have stops (node : Node) : Stopped node (first :: others ++ braces.closing :: rest) := by
    rintro next ⟨⟩ ⟨_, isElse⟩
    exact starts.2.2 isElse
  obtain ⟨middle, past, closed, same⟩ := declared.goesOn itemizes restEnded stops [] split
  have open' : middle.openBlocks = cursor.openBlocks := closed (Balanced.declaration limit)
  have bounds : Bounds braces.closing.kind middle.openBlocks := by
    rw [braces.isClosing, open']
    exact bounds_rightBrace inside
  obtain ⟨stopped, run, pastWord, stays⟩ :=
    declaration_rejected rejects (List.cons_ne_nil _ _) past.ahead bounds
  refine ⟨stopped, ?_, past.trans pastWord, stays.trans open'⟩
  have ahead : (stopped.blaming braces.closing (.semicolonAfter sentence)).ahead =
      braces.closing :: rest := pastWord.ahead
  rw [many_eq, same, collectAll_apply_item itemizes.orderly itemizes.proceeds past.ahead
    (starts.ends_eq_false itemizes) (past.ahead ▸ restEnded), bind_apply_ok run,
    collectAll_apply_ends ahead (by simp [braces.isClosing, endsBlock])]
  simp

/-- So the block comes to the declarations before, and its end is reported. -/
theorem statement_rejected (declared : Declared limit nodes body)
    (rejects : Rejects (plainDeclaration limit) word [] braces.closing (.semicolonAfter sentence)
      rest)
    (begins : ∃ first others, word = first :: others ∧ startsDeclaration first.kind)
    (ended : Ended rest) (split : cursor.ahead = braces.around (body ++ word) rest) :
    statement (limit + 1) cursor =
      .ok (.blockStmt nodes) (cursor.behindBlock braces (body ++ word) rest sentence) := by
  have enters : cursor.ahead = braces.opening :: (body ++ (word ++ braces.closing :: rest)) := by
    rw [split, Braces.around, List.append_assoc]
  let opened : Cursor :=
    { cursor.after braces.opening (body ++ (word ++ braces.closing :: rest)) with
      openBlocks := cursor.openBlocks + 1 }
  obtain ⟨stopped, items, past, stays⟩ := many_rejected declared rejects begins ended
    (show opened.ahead = _ from rfl) (Nat.succ_pos _)
  have place : stopped.position = cursor.position + ((body ++ word).length + 1) := by
    rw [past.position, Nat.add_comm _ 1, ← Nat.add_assoc]
    rfl
  have quiet : stopped.errors = cursor.errors := past.errors_eq
  have open' : stopped.openBlocks = cursor.openBlocks + 1 := stays
  let left : Cursor :=
    { stopped.blaming braces.closing (.semicolonAfter sentence) with
      openBlocks := stopped.openBlocks - 1 }
  have ahead : left.ahead = braces.closing :: rest := past.ahead
  have leaves : left.after braces.closing rest =
      cursor.behindBlock braces (body ++ word) rest sentence := by
    simp only [left, Cursor.after, Cursor.blaming, Cursor.behindBlock, place, quiet, open',
      braces.isClosing, Nat.add_sub_cancel, Nat.add_assoc]
  rw [← leaves, statement, statementOf, bind_apply_ok (accept?_apply_some enters
    (by simp [braces.isOpening, leadsStatement]))]
  simp only [braces.isOpening]
  change (many endsBlock (declaration limit) >>= _) opened = _
  rw [bind_apply_ok items]
  change (expect (.symbol .rightBrace) .blockClosing >>= _) left = _
  exact bind_apply_ok (expect_apply ahead braces.isClosing .blockClosing)

/-! ## Blocks that are not given up -/

/-- A block is given up if its body is. -/
theorem givesUp_statement {inner : List Token}
    (givesUp : GivesUp (many endsBlock (declaration limit)) (inner ++ braces.closing :: rest)) :
    GivesUp (statement (limit + 1)) (braces.around inner rest) := by
  have orderly (nodes : List Node) :
      Orderly ((modify fun cursor : Cursor => { cursor with openBlocks := cursor.openBlocks - 1 })
        >>= fun _ => expect (.symbol .rightBrace) .blockClosing >>= fun _ =>
          pure (Node.blockStmt nodes)) :=
    (Orderly.modifyOpenBlocks _).bind fun _ => (Orderly.expect (by simp) _).bind fun _ =>
      Orderly.pure _
  have block : GivesUp (blockRest (declaration limit)) ([] ++ (inner ++ braces.closing :: rest)) :=
    GivesUp.after (takes_modifyOpenBlocks _ _) (givesUp.bind orderly)
  have isLead : leadsStatement braces.opening.kind = true := by
    simp [braces.isOpening, leadsStatement]
  rw [statement]
  refine GivesUp.after (takes_accept?_some isLead _) ?_
  simp only [braces.isOpening]
  exact block

/-- A program that begins with a block comes to the block and to what follows it on
its own. -/
theorem parseWith_block {inner : List Token} {node : Node} {after : Cursor}
    {errors : List SyntaxError}
    (run : statement limit (Cursor.atStart (braces.around inner rest)) = .ok node after)
    (resumes : after.Resumes rest errors) (ended : Ended rest) :
    parseWith (program limit) [] (braces.around inner rest) =
      let resumed := parseWith (program limit) [] rest
      ⟨node :: resumed.result, errors.map SyntaxError.diagnostic ++ resumed.diagnostics⟩ := by
  have refused : (braces.opening.kind == .keyword .kwVar) = false := by simp [braces.isOpening]
  have plain : plainDeclaration limit (Cursor.atStart (braces.around inner rest)) =
      .ok node after := by
    rw [plainDeclaration, bareDeclaration, bind_apply_ok (accept?_apply_none rfl refused)]
    exact run
  have item : topDeclaration limit (Cursor.atStart (braces.around inner rest)) =
      .ok (some node) after := by
    rw [topDeclaration_apply]
    exact abandoning_apply_ok (recovering_apply_ok plain)
  exact parseWith_item item (by simp [braces.isOpening]) (braces.around_ended ended) resumes ended

/-- A parser that has not noted anything has not given up. -/
theorem GivesUp.not_quiet {α : Type} {parser : Parser α} {a : α} {ahead : List Token}
    {after : Cursor} (givesUp : GivesUp parser ahead) (split : cursor.ahead = ahead)
    (run : parser cursor = .ok a after) (quiet : after.errors = cursor.errors) : False := by
  rcases givesUp cursor split with ⟨_, _, stops, _⟩ | ⟨_, _, errors, noted, found⟩
  · rw [run] at stops
    cases stops
  · rw [run, cursorOf_ok, quiet] at noted
    rw [List.self_eq_append_right.mp noted] at found
    cases found

variable {node : Node} {semicolon : Token} {before : List Token}

/-- In a block that is not given up, with the semicolon in its place, the declaration
without the semicolon is rejected at the end of the block. -/
theorem statement_lacking (derived : Body nodes body [])
    (clause : Clause .declaration node (word ++ [semicolon]) [])
    (isSemicolon : semicolon.kind = .symbol .semicolon)
    (isLast : node.lastSentence? = some sentence) (beforeEnded : Ended before)
    (within : ¬ GivesUp (statement limit) (braces.around (body ++ (word ++ [semicolon])) before))
    (ended : Ended rest) (split : cursor.ahead = braces.around (body ++ word) rest) :
    statement limit cursor =
      .ok (.blockStmt nodes) (cursor.behindBlock braces (body ++ word) rest sentence) := by
  cases limit with
  | zero =>
      refine absurd (fun start _ => Or.inl ⟨start, [], ?_, by simp, rfl⟩) within
      rw [statement_zero]
      rfl
  | succ limit =>
      have itemizes := itemizes_declaration limit
      obtain ⟨some, sentence', isLast', lacks⟩ := clause.lacking word semicolon rfl isSemicolon
      obtain rfl := Option.some.inj (isLast.symm.trans isLast')
      obtain ⟨first, tail, whole, starts, _⟩ := clause.head (by simp)
      have begins : ∃ first others, word = first :: others ∧ startsDeclaration first.kind := by
        obtain ⟨token, others, rfl⟩ := List.exists_cons_of_ne_nil some
        cases whole
        exact ⟨_, _, rfl, starts⟩
      have closingEnded : Ended (braces.closing :: before) :=
        beforeEnded.append_left [braces.closing]
      have wordEnded := closingEnded.append_left (word ++ [semicolon])
      have bodyWithin : ¬ GivesUp (collectAll endsBlock (declaration limit) [])
          (body ++ (word ++ [semicolon] ++ braces.closing :: before)) := by
        intro givesUp
        rw [← List.append_assoc] at givesUp
        exact within (givesUp_statement givesUp)
      have declared := derived.declared itemizes rfl wordEnded
        (fun other => clause.stopped other _) bodyWithin
      have wordWithin : ¬ GivesUp (declaration limit)
          (word ++ [semicolon] ++ braces.closing :: before) := by
        intro givesUp
        have later := givesUp.bind fun found => Orderly.collectAll endsBlock itemizes.orderly
          (found.toList ++ (nodes.reverse ++ []))
        exact bodyWithin (later.along fun start startSplit =>
          let ⟨after, past, _, same⟩ := declared.goesOn itemizes wordEnded
            (fun other => clause.stopped other _) [] startSplit
          ⟨after, past, same.trans (clause.collectAll_apply itemizes closingEnded past.ahead _)⟩)
      let gap : Gap semicolon :=
        ⟨braces.closing :: before, braces.closing, rest, isSemicolon,
          by simp [braces.isClosing], clear_rightBrace braces.isClosing rest, closingEnded,
          ended.append_left [braces.closing]⟩
      have stopped : Stopped node gap.rest := by
        rintro next ⟨⟩ ⟨_, isElse⟩
        simp [braces.isClosing] at isElse
      have rejects : Rejects (plainDeclaration limit) word [] braces.closing
          (.semicolonAfter sentence) rest := by
        refine (lacks gap stopped limit).resolve_left fun givesUp => wordWithin ?_
        rw [List.append_assoc]
        exact givesUp_declarationOf givesUp
      exact statement_rejected declared rejects begins ended split

end Blocks

/-! ## Missing semicolons -/

section Missing

variable {word body : List Token} {semicolon eof : Token} {node : Node} {nodes : List Node}

/-- A statement in which the nesting is too deep is reported where it begins a program. -/
theorem nested_of_givesUp {first : Token} {others : List Token}
    (notVar : first.kind ≠ .keyword .kwVar) (inside : first.kind ≠ .eof)
    (ended : Ended (first :: others))
    (givesUp : GivesUp (statement limit) (first :: others)) :
    ∃ diagnostic ∈ (Parsed.ofProgram limit (first :: others)).diagnostics,
      diagnostic.message = "Nesting too deep." := by
  have refused : (first.kind == .keyword .kwVar) = false := by simpa using notVar
  have plain : GivesUp (plainDeclaration limit) ([] ++ first :: others) :=
    GivesUp.after (takes_accept?_none refused others) givesUp
  have item := givesUp_topDeclaration ended (givesUp_declarationOf plain)
  have whole : GivesUp (program limit) (first :: others) := by
    intro cursor split
    rw [program, many_eq, collectAll_apply_item (Orderly.topDeclaration limit)
      (proceeds_topDeclaration limit) split (by simpa [endsSource] using inside)
      (split ▸ ended)]
    exact item.bind (fun found => Orderly.collectAll endsSource (Orderly.topDeclaration _) _)
      cursor split
  exact exists_nested_of_givesUp whole

/-- What is parsed without a report is a declaration that is taken. -/
theorem clause_of_parsed (inside : ∀ token ∈ word, token.kind ≠ .eof) (isEnd : eof.kind = .eof)
    (parsed : Parsed.ofProgram limit (word ++ [eof]) = ⟨[node], []⟩) :
    Clause .declaration node word [] ∧ ∀ rest, Ended rest → Stopped node rest →
      Takes (declaration limit) (some node) word [] rest := by
  have declared := declared_of_parsed inside isEnd parsed
  generalize isList : [node] = nodes at declared
  cases declared with
  | nil => cases isList
  | cons clause takes others =>
      cases isList
      cases others
      rw [List.append_nil]
      exact ⟨clause, takes⟩

/-- A declaration that is parsed without a report and ends in a semicolon loses no
more than itself if the semicolon is missing.  In front of a statement, the rest is
parsed as if it stood alone.  In front of the end of a block, the block comes to the
declarations before it, and what follows is parsed as after any block. -/
theorem missing_semicolon_resumes (inside : ∀ token ∈ word, token.kind ≠ .eof)
    (isSemicolon : semicolon.kind = .symbol .semicolon) (isEnd : eof.kind = .eof)
    (parsed : Parsed.ofProgram limit (word ++ [semicolon] ++ [eof]) = ⟨[node], []⟩) :
    ∃ sentence, node.lastSentence? = some sentence ∧
      (∀ token keyword rest, token.kind = .keyword keyword → keyword.startsStatement = true →
        Ended rest → Parsed.ofProgram limit (word ++ token :: rest) =
          (Parsed.ofProgram limit (token :: rest)).behind [] (semicolonReport sentence token)) ∧
      ∀ body nodes eof' (braces : Braces), (∀ token ∈ body, token.kind ≠ .eof) →
        eof'.kind = .eof → Parsed.ofProgram limit (body ++ [eof']) = ⟨nodes, []⟩ →
        (∀ rest, (∀ diagnostic ∈ (Parsed.ofProgram limit
              (braces.around (body ++ (word ++ [semicolon])) [eof])).diagnostics,
            diagnostic.message ≠ "Nesting too deep.") →
          Ended rest → Parsed.ofProgram limit (braces.around (body ++ word) rest) =
            (Parsed.ofProgram limit rest).behind [.blockStmt nodes]
              (semicolonReport sentence braces.closing)) ∧
        ∀ levels (cursor : Cursor) rest after, Ended rest →
          statement levels
              { cursor with ahead := braces.around (body ++ (word ++ [semicolon])) rest } =
            .ok (.blockStmt (nodes ++ [node])) after → after.errors = cursor.errors →
          statement levels { cursor with ahead := braces.around (body ++ word) rest } =
            .ok (.blockStmt nodes) (cursor.behindBlock braces (body ++ word) rest sentence) := by
  have wordInside : ∀ token ∈ word ++ [semicolon], token.kind ≠ .eof := by
    intro token member
    rcases List.mem_append.mp member with before | last
    · exact inside token before
    · rw [List.mem_singleton.mp last, isSemicolon]
      nofun
  have ended := ended_singleton isEnd
  obtain ⟨clause, takes⟩ := clause_of_parsed wordInside isEnd parsed
  obtain ⟨some, sentence, isLast, lacks⟩ := clause.lacking word semicolon rfl isSemicolon
  have stopped : Stopped node [eof] := by
    rintro token ⟨⟩ ⟨_, isElse⟩
    simp [isEnd] at isElse
  refine ⟨sentence, isLast, ?_, ?_⟩
  · intro token keyword rest isKeyword starts restEnded
    let gap : Gap semicolon :=
      ⟨[eof], token, rest, isSemicolon, by simp [isKeyword],
        clear_of_startsStatement isKeyword starts rest, ended, restEnded.append_left [token]⟩
    refine parseWith_rejected ?_ some inside isKeyword starts restEnded
    refine (lacks gap stopped limit).resolve_left fun givesUp => ?_
    have whole := givesUp_declarationOf givesUp
    refine (takes [eof] ended stopped).not_givesUp ?_
    rwa [List.append_assoc]
  · intro body nodes eof' braces bodyInside isEnd' bodyParsed
    have derived := body_of_parsed bodyInside isEnd' bodyParsed
    constructor
    · intro rest shallow restEnded
      have within : ¬ GivesUp (statement limit)
          (braces.around (body ++ (word ++ [semicolon])) [eof]) := by
        intro givesUp
        obtain ⟨diagnostic, member, nested⟩ := nested_of_givesUp (by simp [braces.isOpening])
          (by simp [braces.isOpening]) (braces.around_ended ended) givesUp
        exact shallow diagnostic member nested
      have run := statement_lacking derived clause isSemicolon isLast ended within restEnded
        (show (Cursor.atStart (braces.around (body ++ word) rest)).ahead = _ from rfl)
      exact parseWith_block run ⟨rfl, rfl, rfl⟩ restEnded
    · intro levels cursor rest after restEnded run quiet
      have within : ¬ GivesUp (statement levels)
          (braces.around (body ++ (word ++ [semicolon])) rest) :=
        fun givesUp => givesUp.not_quiet rfl run quiet
      have start : ({ cursor with ahead := braces.around (body ++ word) rest } : Cursor).ahead =
          braces.around (body ++ word) rest := rfl
      exact statement_lacking derived clause isSemicolon isLast restEnded within restEnded start

/-- The tokens `if (nil) print nil`, without the semicolon at the end. -/
def openBranch : List Token :=
  [blankToken (.keyword .kwIf), blankToken (.symbol .leftParen), blankToken (.keyword .kwNil),
    blankToken (.symbol .rightParen), blankToken (.keyword .kwPrint), blankToken (.keyword .kwNil)]

/-- The branch in front of a class, at the end of the block `{ print nil; ... }`, and
in such a block at the place of a cursor inside of another one. -/
theorem missing_semicolon_resumes_branch :
    let plain : Node := .printStmt (.literal .nil)
    let braces : Braces := ⟨opening, closing, rfl, rfl⟩
    let rest := plainPrint ++ [blankToken .eof]
    let cursor : Cursor := ⟨[], 7, none, 1, []⟩
    Parsed.ofProgram 100 (openBranch ++ [blankToken (.symbol .semicolon)] ++ [blankToken .eof]) =
        ⟨[.ifStmt (.literal .nil) plain .absent], []⟩ ∧
      Parsed.ofProgram 100 (openBranch ++ blankToken (.keyword .kwClass) :: rest) =
        (Parsed.ofProgram 100 (blankToken (.keyword .kwClass) :: rest)).behind []
          (semicolonReport .value (blankToken (.keyword .kwClass))) ∧
      Parsed.ofProgram 100 (braces.around (plainPrint ++ openBranch) rest) =
        (Parsed.ofProgram 100 rest).behind [.blockStmt [plain]] (semicolonReport .value closing) ∧
      statement 9 { cursor with ahead := braces.around (plainPrint ++ openBranch) rest } =
        .ok (.blockStmt [plain])
          (cursor.behindBlock braces (plainPrint ++ openBranch) rest .value) := by
  intro plain braces rest cursor
  have parsed : Parsed.ofProgram 100
      (openBranch ++ [blankToken (.symbol .semicolon)] ++ [blankToken .eof]) =
        ⟨[.ifStmt (.literal .nil) plain .absent], []⟩ := rfl
  let complete := plainPrint ++ (openBranch ++ [blankToken (.symbol .semicolon)])
  have shallow : ∀ diagnostic ∈
      (Parsed.ofProgram 100 (braces.around complete [blankToken .eof])).diagnostics,
        diagnostic.message ≠ "Nesting too deep." := by
    decide +kernel
  have run : statement 9 { cursor with ahead := braces.around complete rest } =
      .ok (.blockStmt [plain, .ifStmt (.literal .nil) plain .absent])
        ⟨rest, 19, some (.symbol .rightBrace), 1, []⟩ := rfl
  have ended : Ended rest := (ended_singleton rfl).append_left plainPrint
  obtain ⟨sentence, isLast, statements, blocks⟩ :=
    missing_semicolon_resumes (by decide) rfl rfl parsed
  cases isLast
  obtain ⟨programs, cursors⟩ :=
    blocks plainPrint [plain] (blankToken .eof) braces (by decide) rfl rfl
  exact ⟨parsed, statements _ _ rest rfl rfl ended, programs rest shallow ended,
    cursors 9 cursor rest _ ended run rfl⟩

end Missing

end TreeWalker.Grammar
