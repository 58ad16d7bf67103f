import TreeWalker.Proofs.Grammar.Balance
import TreeWalker.Proofs.Grammar.Correctness

/-!
# Two programs in a row

The tokens of two programs that are parsed without a report, in a row, are parsed
without a report to the statements of both.  The first program ends where it did,
since no declaration begins with what makes the one before it longer, and each
declaration is nested as deep as it was.
-/

namespace TreeWalker.Grammar

/-- Declarations in a row, each of which is taken as long as it is nested no more
levels deep than allowed, and none of which is nested deeper. -/
inductive Declared (limit : Nat) : List Node → List Token → Prop where
  | nil : Declared limit [] []
  | cons {node : Node} {nodes : List Node} {word restWord : List Token}
    (clause : Clause .declaration node word [])
    (takes : ∀ rest, Ended rest → Stopped node rest →
      Takes (declaration limit) (some node) word [] rest)
    (others : Declared limit nodes restWord) : Declared limit (node :: nodes) (word ++ restWord)

variable {limit : Nat} {node : Node} {nodes others : List Node} {word more rest : List Token}

theorem Declared.append (first : Declared limit nodes word) (second : Declared limit others more) :
    Declared limit (nodes ++ others) (word ++ more) := by
  induction first with
  | nil => exact second
  | cons clause takes _ inductionHypothesis =>
      rw [List.append_assoc]
      exact .cons clause takes inductionHypothesis

theorem Declared.body (declared : Declared limit nodes word) : Body nodes word [] := by
  induction declared with
  | nil => exact .empty
  | cons clause _ _ inductionHypothesis => exact .item clause inductionHypothesis

section Items

variable {ends : TokenKind → Bool} {item : Parser (Option Node)}

/-- A declaration is the next item of a body. -/
theorem Clause.collectAll_apply {strays : List Token} {cursor : Cursor}
    (itemizes : Itemizes limit ends item) (clause : Clause .declaration node word strays)
    (ended : Ended rest) (split : cursor.ahead = word ++ rest) (collected : List Node) :
    collectAll ends item collected cursor =
      (item >>= fun found => collectAll ends item (found.toList ++ collected)) cursor := by
  obtain ⟨token, tail, rfl, starts, _⟩ := clause.head (by simp)
  refine collectAll_apply_item itemizes.orderly itemizes.proceeds split
    (starts.ends_eq_false itemizes) ?_
  rw [split]
  exact ended.append_left _

/-- A declaration does not make the statement in front of it a longer one. -/
theorem Clause.stopped {strays : List Token} (clause : Clause .declaration node word strays)
    (other : Node) (rest : List Token) : Stopped other (word ++ rest) := by
  obtain ⟨token, tail, rfl, starts, _⟩ := clause.head (by simp)
  rintro next ⟨⟩ ⟨_, isElse⟩
  exact starts.2.2 isElse

/-- Nor does a body, unless what follows the body does. -/
theorem Body.stopped {strays : List Token} (body : Body nodes word strays)
    (stopped : ∀ node, Stopped node rest) (node : Node) : Stopped node (word ++ rest) := by
  cases body with
  | empty => exact stopped node
  | item clause _ =>
      rw [List.append_assoc]
      exact clause.stopped node _

/-- Declarations in a row are taken, and the list of items goes on behind them. -/
theorem Declared.goesOn (itemizes : Itemizes limit ends item) (declared : Declared limit nodes word)
    (ended : Ended rest) (stopped : ∀ node, Stopped node rest) (collected : List Node)
    {cursor : Cursor} (split : cursor.ahead = word ++ rest) :
    ∃ after, cursor.Past word [] rest after ∧
      (Balanced item → after.openBlocks = cursor.openBlocks) ∧
      collectAll ends item collected cursor =
        collectAll ends item (nodes.reverse ++ collected) after := by
  induction declared generalizing collected cursor with
  | nil =>
      have past := Cursor.Past.refl cursor
      rw [show cursor.ahead = rest from split] at past
      exact ⟨cursor, past, fun _ => rfl, rfl⟩
  | @cons node nodes word restWord clause takes declared inductionHypothesis =>
      rw [List.append_assoc] at split
      have restEnded := ended.append_left restWord
      have settles := itemizes.settles restEnded
        (Settles.of_takes (takes _ restEnded (declared.body.stopped stopped node)))
      obtain ⟨middle, run, past⟩ := settles.takes trivial cursor split
      obtain ⟨after, pastRest, closed, same⟩ := inductionHypothesis (node :: collected) past.ahead
      refine ⟨after, past.trans pastRest, fun balanced => ?_, ?_⟩
      · have closedItem := balanced cursor
        rw [run] at closedItem
        exact (closed balanced).trans closedItem
      · rw [clause.collectAll_apply itemizes restEnded split, bind_apply_ok run, List.reverse_cons,
          List.append_assoc]
        exact same

/-- A body that is not given up consists of declarations that are taken. -/
theorem Body.declared {strays : List Token} (itemizes : Itemizes limit ends item)
    (body : Body nodes word strays) (noStrays : strays = []) (ended : Ended rest)
    (stopped : ∀ node, Stopped node rest) {collected : List Node}
    (goesOn : ¬ GivesUp (collectAll ends item collected) (word ++ rest)) :
    Declared limit nodes word := by
  induction nodes generalizing word strays collected with
  | nil =>
      cases body
      exact .nil
  | cons node nodes inductionHypothesis =>
      cases body with
      | @item _ _ word restWord strays restStrays clause body =>
          obtain ⟨rfl, rfl⟩ := List.append_eq_nil_iff.mp noStrays
          have restEnded := ended.append_left restWord
          have restStopped := Body.stopped body stopped node
          have through (givesUp : GivesUp (item >>= fun found =>
              collectAll ends item (found.toList ++ collected))
              (word ++ (restWord ++ rest))) : False := by
            refine goesOn fun cursor split => ?_
            rw [List.append_assoc] at split
            rw [clause.collectAll_apply itemizes restEnded split]
            exact givesUp cursor split
          obtain ⟨depth, settles, _⟩ := Clause.settled clause
          -- A declaration that does not fit would have been given up, and so the body.
          have settled := itemizes.settles restEnded (settles limit _ restEnded restStopped)
          by_cases fits : depth ≤ limit
          · have takes (rest : List Token) (ended : Ended rest) (stopped : Stopped node rest) :=
              (settles limit rest ended stopped).takes fits
            have later : ¬ GivesUp (collectAll ends item (node :: collected)) (restWord ++ rest) :=
              fun givesUp => through (GivesUp.after (settled.takes fits) givesUp)
            exact .cons clause takes (inductionHypothesis body rfl later)
          · exact absurd ((settled.givesUp fits).bind fun found =>
              Orderly.collectAll ends itemizes.orderly _) through

end Items

/-- Declarations in a row are taken up to the end of the source. -/
theorem Declared.takes (declared : Declared limit nodes word) (ended : Ended rest)
    (ending : Ending endsSource rest) :
    Takes (program limit) nodes word [] rest := by
  intro cursor split
  have itemizes := itemizes_topDeclaration limit
  obtain ⟨after, past, _, same⟩ :=
    declared.goesOn itemizes ended (ending.stopped itemizes) [] split
  rcases ended.exists_cons with ⟨next, tail, rfl⟩
  refine ⟨after, ?_, past⟩
  rw [program, many_eq, same, collectAll_apply_ends past.ahead (ending next (by simp)),
    List.append_nil, List.reverse_reverse]

/-! ## Programs -/

variable {body : List Token} {eof eof' : Token}

/-- What is parsed without a report consists of declarations that are taken. -/
theorem declared_of_parsed (inside : ∀ token ∈ body, token.kind ≠ .eof) (isEnd : eof.kind = .eof)
    (parsed : Parsed.ofProgram limit (body ++ [eof]) = ⟨nodes, []⟩) :
    Declared limit nodes body := by
  have goesOn : ¬ GivesUp (program limit) (body ++ [eof]) := by
    intro givesUp
    rcases firstFault_of_givesUp givesUp with ⟨error, found, _⟩
    rw [syntaxErrors_of_parsed parsed] at found
    cases found
  have itemizes := itemizes_topDeclaration limit
  exact (body_of_parsed inside isEnd parsed).declared itemizes rfl (ended_singleton isEnd)
    ((ending_singleton isEnd).stopped itemizes) goesOn

/-- Declarations that are taken are parsed without a report. -/
theorem Declared.parsed (declared : Declared limit nodes body) (isEnd : eof.kind = .eof) :
    Parsed.ofProgram limit (body ++ [eof]) = ⟨nodes, []⟩ := by
  have takes := declared.takes (ended_singleton isEnd) (ending_singleton isEnd)
  rcases ofProgram_of_takes takes with ⟨errors, reports, parsed⟩
  have noErrors : errors = [] := List.map_eq_nil_iff.mp reports
  subst noErrors
  exact parsed

/-- Two programs that are parsed without a report are parsed in a row to the
statements of both, without a report. -/
theorem parsed_append (inside : ∀ token ∈ body, token.kind ≠ .eof)
    (insideMore : ∀ token ∈ more, token.kind ≠ .eof) (isEnd : eof.kind = .eof)
    (isEnd' : eof'.kind = .eof) (parsed : Parsed.ofProgram limit (body ++ [eof]) = ⟨nodes, []⟩)
    (parsedMore : Parsed.ofProgram limit (more ++ [eof']) = ⟨others, []⟩) :
    Parsed.ofProgram limit (body ++ more ++ [eof']) = ⟨nodes ++ others, []⟩ :=
  ((declared_of_parsed inside isEnd parsed).append
    (declared_of_parsed insideMore isEnd' parsedMore)).parsed isEnd'

end TreeWalker.Grammar
