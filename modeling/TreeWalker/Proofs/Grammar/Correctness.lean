import TreeWalker.Proofs.Grammar.Canonical
import TreeWalker.Proofs.Grammar.Completeness.Statement

/-!
# The parser and the language

Parsing finds the tree of a program, and only that.  If it reports nothing, the
statements are canonical and spell the tokens; and canonical statements are found
from the tokens they spell if the parser has as many levels as they are nested deep,
and are given up if it has fewer.  Otherwise the first report that is not about the
target of an assignment stands at the first token that cannot go on to a program.

All this concerns sources, which are token lists with a token for the end in the
last place and nowhere else.
-/

namespace TreeWalker.Grammar

variable {limit : Nat}

/-- The errors noted when a token list is parsed as a program. -/
def syntaxErrors (limit : Nat) (tokens : List Token) : List SyntaxError :=
  (cursorOf (program limit (Cursor.atStart tokens))).errors

theorem ofProgram_diagnostics (limit : Nat) (tokens : List Token) :
    (Parsed.ofProgram limit tokens).diagnostics =
      (syntaxErrors limit tokens).map SyntaxError.diagnostic := by
  unfold Parsed.ofProgram parseWith syntaxErrors
  cases program limit (Cursor.atStart tokens) <;> rfl

/-- The tokens are a program, if anything may stand to the left of an
assignment. -/
def IsProgram (tokens : List Token) : Prop :=
  ∃ statements strays, Body statements tokens strays

/-- The tokens can be completed to a program. -/
def BeginsProgram (tokens : List Token) : Prop :=
  ∃ rest, IsProgram (tokens ++ rest)

theorem beginsProgram_of_viable {tokens : List Token} (viable : Language.Viable Body tokens) :
    BeginsProgram tokens := by
  rcases viable with ⟨statements, rest, strays, body⟩
  exact ⟨rest, statements, strays, body⟩

theorem BeginsProgram.take {tokens : List Token} (begins : BeginsProgram tokens) (count : Nat) :
    BeginsProgram (tokens.take count) := by
  rcases begins with ⟨rest, isProgram⟩
  refine ⟨tokens.drop count ++ rest, ?_⟩
  rwa [← List.append_assoc, List.take_append_drop]

/-! ## Sources -/

/-- A source: its end is its last token and no other. -/
structure IsSource (body : List Token) (eof : Token) : Prop where
  inside : ∀ token ∈ body, token.kind ≠ .eof
  isEnd : eof.kind = .eof

section Sources

variable {body : List Token} {eof : Token}

theorem ended_singleton (isEnd : eof.kind = .eof) : Ended [eof] :=
  ⟨eof, List.mem_singleton_self eof, isEnd⟩

theorem ending_singleton (isEnd : eof.kind = .eof) : Ending endsSource [eof] := by
  rintro token ⟨⟩
  simp [isEnd, endsSource]

/-- The end of a source follows the whole of its body. -/
theorem IsSource.eq_of_split (source : IsSource body eof) {word rest : List Token} {next : Token}
    (split : body ++ [eof] = word ++ next :: rest) (isEnd : next.kind = .eof) :
    word = body ∧ next = eof ∧ rest = [] := by
  rcases List.append_eq_append_iff.mp split with ⟨between, rfl, others⟩ | ⟨between, rfl, others⟩
  · cases between with
    | nil =>
        rcases List.cons.inj others with ⟨rfl, rfl⟩
        exact ⟨(List.append_nil body).symm ▸ rfl, rfl, rfl⟩
    | cons first between =>
        have tooLong := congrArg List.length others
        simp at tooLong
  · cases between with
    | nil =>
        obtain ⟨rfl, rfl⟩ := List.cons.inj others
        exact ⟨(List.append_nil word).symm, rfl, rfl⟩
    | cons first between =>
        rcases List.cons.inj others with ⟨rfl, _⟩
        exact absurd isEnd (source.inside next (by simp))

theorem firstNote_atStart {tokens : List Token} {later : Cursor} {error : SyntaxError}
    (first : (Cursor.atStart tokens).FirstNote later error) :
    firstFault later.errors = some error := by
  rcases first with ⟨errors, noted, found⟩
  rwa [noted, Cursor.atStart, List.nil_append]

/-- What is given up in a source is noted before any other fault. -/
theorem firstFault_of_givesUp {tokens : List Token}
    (givesUp : GivesUp (program limit) tokens) :
    ∃ error, firstFault (syntaxErrors limit tokens) = some error ∧ error.fault = .nesting := by
  rcases givesUp (Cursor.atStart tokens) rfl with ⟨after, _, run, _⟩ | ⟨error, nested, first⟩
  · exact absurd run (Persists.program limit _ after)
  · exact ⟨error, firstNote_atStart first, nested⟩

/-- A program that is given up is reported as nested too deeply. -/
theorem exists_nested_of_givesUp {tokens : List Token}
    (givesUp : GivesUp (program limit) tokens) :
    ∃ diagnostic ∈ (Parsed.ofProgram limit tokens).diagnostics,
      diagnostic.message = "Nesting too deep." := by
  obtain ⟨error, found, nested⟩ := firstFault_of_givesUp givesUp
  refine ⟨error.diagnostic, ?_, by simp [SyntaxError.diagnostic, nested, Fault.message]⟩
  rw [ofProgram_diagnostics]
  exact List.mem_map_of_mem (List.mem_of_find?_eq_some found)

/-- Tokens that are taken give their tree, and the stray ones are reported. -/
theorem ofProgram_of_takes {statements : List Node} {word strays rest : List Token}
    (takes : Takes (program limit) statements word strays rest) :
    ∃ errors, Reports strays errors ∧
      Parsed.ofProgram limit (word ++ rest) = ⟨statements, errors.map SyntaxError.diagnostic⟩ := by
  rcases takes (Cursor.atStart (word ++ rest)) rfl with ⟨after, run, past⟩
  obtain ⟨errors, noted, reports⟩ := past.errors
  refine ⟨errors, reports, ?_⟩
  rw [Parsed.ofProgram, parseWith, run]
  simp [Cursor.diagnostics, noted, Cursor.atStart]

/-- The tokens after a word of a source go on to its end. -/
theorem IsSource.ended (source : IsSource body eof) {word rest : List Token} {next : Token}
    (split : body ++ [eof] = word ++ next :: rest) : Ended (next :: rest) := by
  have lasts := congrArg List.getLast? split
  rw [List.getLast?_append_of_ne_nil _ (by simp), List.getLast?_append_of_ne_nil _ (by simp)]
    at lasts
  have member : eof ∈ next :: rest := List.mem_of_getLast? lasts.symm
  exact ⟨eof, member, source.isEnd⟩

/-- The three ways in which a source is parsed. -/
theorem IsSource.cases (source : IsSource body eof) :
    (∃ statements strays errors, Body statements body strays ∧ Reports strays errors ∧
      Parsed.ofProgram limit (body ++ [eof]) = ⟨statements, errors.map SyntaxError.diagnostic⟩) ∨
    (∃ word token rest fault, body ++ [eof] = word ++ token :: rest ∧ BeginsProgram word ∧
      fault ≠ .nesting ∧
      firstFault (syntaxErrors limit (body ++ [eof])) = some ⟨word.length, token, fault⟩ ∧
      ∀ rest', Ended (token :: rest') →
        Blames (program limit) word token fault rest') ∨
    ∃ error, firstFault (syntaxErrors limit (body ++ [eof])) = some error ∧
      error.fault = .nesting := by
  have ended : Ended (body ++ [eof]) := (ended_singleton source.isEnd).append_left body
  cases decides_program limit (body ++ [eof]) ended with
  | givesUp givesUp => exact Or.inr (Or.inr (firstFault_of_givesUp givesUp))
  | @blames word token rest fault split viable notNested blames =>
      have first := blames rest (source.ended split) (Cursor.atStart (body ++ [eof])) split
      have found := firstNote_atStart first
      rw [Cursor.atStart, Nat.zero_add] at found
      exact Or.inr (Or.inl ⟨word, token, rest, fault, split, beginsProgram_of_viable viable,
        notNested, found, blames⟩)
  | @takes statements word strays next rest split member stops restEnded takes =>
      have isEnd : next.kind = .eof := by simpa [bodyGoesOn, endsSource] using stops
      rcases source.eq_of_split split isEnd with ⟨rfl, rfl, rfl⟩
      rcases ofProgram_of_takes (takes [] restEnded) with ⟨errors, reports, parsed⟩
      exact Or.inl ⟨statements, strays, errors, member, reports, parsed⟩

end Sources

/-! ## What is parsed without a report -/

theorem syntaxErrors_of_parsed {tokens : List Token} {result : List Node}
    (parsed : Parsed.ofProgram limit tokens = ⟨result, []⟩) : syntaxErrors limit tokens = [] := by
  have reported := ofProgram_diagnostics limit tokens
  rw [parsed] at reported
  exact List.map_eq_nil_iff.mp reported.symm

/-- What is parsed without a report has a derivation without stray tokens. -/
theorem body_of_parsed {body : List Token} {eof : Token} {statements : List Node}
    (inside : ∀ token ∈ body, token.kind ≠ .eof) (isEnd : eof.kind = .eof)
    (parsed : Parsed.ofProgram limit (body ++ [eof]) = ⟨statements, []⟩) :
    Body statements body [] := by
  have clean := syntaxErrors_of_parsed parsed
  rcases IsSource.cases ⟨inside, isEnd⟩ with ⟨nodes, strays, errors, member, reports, same⟩ |
    ⟨_, _, _, _, _, _, _, found, _⟩ | ⟨_, found, _⟩
  · rw [parsed] at same
    rcases Parsed.mk.inj same with ⟨rfl, noReport⟩
    have noErrors : errors = [] := List.map_eq_nil_iff.mp noReport.symm
    subst noErrors
    have noStrays : strays = [] := List.map_eq_nil_iff.mp (Eq.symm reports)
    rwa [noStrays] at member
  · rw [clean] at found
    cases found
  · rw [clean] at found
    cases found

/-- Statements that are parsed without a report are canonical. -/
theorem areCanonical_of_parsed {body : List Token} {eof : Token} {statements : List Node}
    (inside : ∀ token ∈ body, token.kind ≠ .eof) (isEnd : eof.kind = .eof)
    (parsed : Parsed.ofProgram limit (body ++ [eof]) = ⟨statements, []⟩) :
    Node.AreCanonical statements :=
  (Clause.reads (body_of_parsed inside isEnd parsed) rfl _ rfl).1

/-- Statements that are parsed without a report are canonical and spell the
tokens: none is dropped, and none is invented. -/
theorem spells_of_parsed {body : List Token} {eof : Token} {statements : List Node}
    (inside : ∀ token ∈ body, token.kind ≠ .eof) (isEnd : eof.kind = .eof)
    (carries : ∀ token ∈ body, token.Carries)
    (parsed : Parsed.ofProgram limit (body ++ [eof]) = ⟨statements, []⟩) :
    Spells statements body ∧ Node.AreCanonical statements := by
  obtain ⟨canonical, fits⟩ := Clause.reads (body_of_parsed inside isEnd parsed) rfl _ rfl
  exact ⟨fits carries, canonical⟩

/-- A variable of one letter. -/
def letter (name : String) : Token :=
  ⟨.identifier, name, .nil, 1⟩

/-- The body `print a + b * a;`. -/
def sampleBody : List Token :=
  [blankToken (.keyword .kwPrint), letter "a", blankToken (.symbol .plus), letter "b",
    blankToken (.symbol .star), letter "a", blankToken (.symbol .semicolon)]

/-- What the body means. -/
def sampleStatements : List Node :=
  [.printStmt (.binary (.reference (letter "a")) (blankToken (.symbol .plus))
    (.binary (.reference (letter "b")) (blankToken (.symbol .star)) (.reference (letter "a"))))]

/-- The sum in the sample has the product as its right operand. -/
theorem spells_of_parsed_sample :
    Parsed.ofProgram 100 (sampleBody ++ [blankToken .eof]) = ⟨sampleStatements, []⟩ ∧
      Spells sampleStatements sampleBody ∧ Node.AreCanonical sampleStatements := by
  have parsed : Parsed.ofProgram 100 (sampleBody ++ [blankToken .eof]) =
      ⟨sampleStatements, []⟩ := rfl
  have carries : ∀ token ∈ sampleBody, token.Carries := by
    simp [sampleBody, letter, blankToken, Token.Carries]
  exact ⟨parsed, spells_of_parsed (by decide) rfl carries parsed⟩

/-! ## Canonical statements are parsed -/

/-- What has a derivation without stray tokens is parsed to its tree, with as many levels
as this is nested deep. -/
theorem parsed_of_body {statements : List Node} {body : List Token} {eof : Token}
    (derived : Body statements body []) (isEnd : eof.kind = .eof)
    (fits : Node.nestingOfAll statements ≤ limit) :
    Parsed.ofProgram limit (body ++ [eof]) = ⟨statements, []⟩ := by
  obtain ⟨depth, settles, isDepth⟩ := Body.settled derived
  have settled := settles limit [eof] (ended_singleton isEnd) (ending_singleton isEnd)
  rw [isDepth rfl] at settled
  obtain ⟨errors, reports, parsed⟩ := ofProgram_of_takes (settled.takes fits)
  have noErrors : errors = [] := List.map_eq_nil_iff.mp reports
  rwa [noErrors] at parsed

/-- Canonical statements are parsed from the tokens that they spell with as many levels
as they are nested deep, and are reported as nested too deeply with fewer; and no other
canonical statements spell the same. -/
theorem parsed_of_spells {statements : List Node} {body : List Token} {eof : Token}
    (canonical : Node.AreCanonical statements) (spells : Spells statements body)
    (isEnd : eof.kind = .eof) :
    (Node.nestingOfAll statements ≤ limit →
      Parsed.ofProgram limit (body ++ [eof]) = ⟨statements, []⟩) ∧
    (limit < Node.nestingOfAll statements →
      ∃ diagnostic ∈ (Parsed.ofProgram limit (body ++ [eof])).diagnostics,
        diagnostic.message = "Nesting too deep.") ∧
    ∀ others, Node.AreCanonical others → Spells others body → others = statements := by
  have ended := ended_singleton isEnd
  have ending := ending_singleton isEnd
  obtain ⟨depth, settles, isDepth⟩ := Body.settled (clause_of_spells canonical spells)
  refine ⟨parsed_of_body (clause_of_spells canonical spells) isEnd, fun tooDeep => ?_,
    fun others otherCanonical otherSpells => ?_⟩
  · rw [← isDepth rfl] at tooDeep
    exact exists_nested_of_givesUp
      ((settles limit [eof] ended ending).givesUp (Nat.not_le.mpr tooDeep))
  · obtain ⟨otherDepth, otherSettles, _⟩ :=
      Body.settled (clause_of_spells otherCanonical otherSpells)
    have takes := (settles (max depth otherDepth) [eof] ended ending).takes (Nat.le_max_left _ _)
    have otherTakes :=
      (otherSettles (max depth otherDepth) [eof] ended ending).takes (Nat.le_max_right _ _)
    exact otherTakes.unique takes

/-- The tree of the sample is the only one that spells it.  It is found with three
levels, those of a statement, an expression and an operand, and not with two. -/
theorem parsed_of_spells_sample :
    Node.AreCanonical sampleStatements ∧ Spells sampleStatements sampleBody ∧
      Parsed.ofProgram 3 (sampleBody ++ [blankToken .eof]) = ⟨sampleStatements, []⟩ ∧
      (∃ diagnostic ∈ (Parsed.ofProgram 2 (sampleBody ++ [blankToken .eof])).diagnostics,
        diagnostic.message = "Nesting too deep.") ∧
      ∀ others, Node.AreCanonical others → Spells others sampleBody →
        others = sampleStatements := by
  have canonical : Node.AreCanonical sampleStatements := by
    simp [sampleStatements, Node.AreCanonical, Node.IsStatement, Node.IsExpression, Node.Binds,
      Node.binaryStrength?, Node.strength, blankToken, letter]
  have spells : Spells sampleStatements sampleBody := by
    simp [Spells, sampleStatements, sampleBody, Node.spellingOfAll, Node.spelling, Mark.Fits,
      blankToken]
  have nesting : Node.nestingOfAll sampleStatements = 3 := by
    simp [sampleStatements, Node.nestingOfAll, Node.nesting]
  obtain ⟨parsed, _, unique⟩ := @parsed_of_spells 3 _ _ (blankToken .eof) canonical spells rfl
  obtain ⟨_, reported, _⟩ := @parsed_of_spells 2 _ _ (blankToken .eof) canonical spells rfl
  exact ⟨canonical, spells, parsed (Nat.le_of_eq nesting), reported (by omega), unique⟩

/-! ## The first token that is blamed -/

theorem message_eq_assignmentTarget_iff (fault : Fault) :
    fault.message = "Invalid assignment target." ↔ fault = .assignmentTarget := by
  rcases fault with _ | _ | sentence | guarded | guarded | _ | _ | _ | _ | _
  case semicolonAfter => cases sentence <;> decide
  case conditionOpening => cases guarded <;> decide
  case conditionClosing => cases guarded <;> decide
  all_goals decide

/-- Among the diagnostics, the first that is not about the target of an assignment
belongs to the first such error. -/
theorem find?_diagnostic (errors : List SyntaxError) :
    (errors.map SyntaxError.diagnostic).find? (fun diagnostic =>
      diagnostic.message != "Invalid assignment target.") =
      (firstFault errors).map SyntaxError.diagnostic := by
  rw [List.find?_map, firstFault]
  congr 2
  funext error
  by_cases stray : error.fault = .assignmentTarget
  · simp [SyntaxError.diagnostic, stray, Fault.message]
  · have other := mt (message_eq_assignmentTarget_iff error.fault).mp stray
    rw [Function.comp_apply, bne_iff_ne.mpr stray]
    exact bne_iff_ne.mpr other

/-- A parser that settles on a word has no reason to blame a token of it, or the
one after it. -/
theorem Blames.not_settles {α : Type} {parser : Parser α} (persists : Persists parser) {a : α}
    {fits : Prop} {word word' strays rest rest' : List Token} {token : Token} {fault : Fault}
    (blames : Blames parser word token fault rest) (notNested : fault ≠ .nesting)
    (same : word' ++ rest' = word ++ token :: rest) :
    ¬ Settles fits parser a word' strays rest' := by
  intro settles
  have blamed := blames (Cursor.atStart (word' ++ rest')) same
  by_cases fitting : fits
  · obtain ⟨after, run, past⟩ := settles.takes fitting (Cursor.atStart (word' ++ rest')) rfl
    rw [run] at blamed
    exact blamed.not_past past
  · rcases settles.givesUp fitting (Cursor.atStart (word' ++ rest')) rfl with
      ⟨after, _, run, _⟩ | ⟨error, nested, first⟩
    · exact persists _ after run
    · have equal := blamed.unique first
      rw [← equal] at nested
      exact notNested nested

/-- A program is settled in front of the end of a source. -/
theorem IsProgram.settled {tokens : List Token} {eof : Token} (isProgram : IsProgram tokens)
    (isEnd : eof.kind = .eof) :
    ∃ fits statements strays,
      Settles fits (program limit) statements tokens strays [eof] := by
  rcases isProgram with ⟨statements, strays, body⟩
  obtain ⟨depth, settles, _⟩ := body.settled
  exact ⟨_, statements, strays, settles limit [eof] (ended_singleton isEnd)
    (ending_singleton isEnd)⟩

/-- The body `a + b = nil; print *;`. -/
def strayBody : List Token :=
  [letter "a", blankToken (.symbol .plus), letter "b", blankToken (.symbol .equal),
    blankToken (.keyword .kwNil), blankToken (.symbol .semicolon), blankToken (.keyword .kwPrint),
    blankToken (.symbol .star), blankToken (.symbol .semicolon)]

/-- The first report that is not about the target of an assignment, in a source
that is not nested too deeply, stands at the first token that cannot go on to a
program.  At the end of the source, what stands before it is no program. -/
theorem first_offending_token {body : List Token} {eof : Token} {first : Diagnostic}
    (inside : ∀ token ∈ body, token.kind ≠ .eof) (isEnd : eof.kind = .eof)
    (shallow : ∀ diagnostic ∈ (Parsed.ofProgram limit (body ++ [eof])).diagnostics,
      diagnostic.message ≠ "Nesting too deep.")
    (reported : (Parsed.ofProgram limit (body ++ [eof])).diagnostics.find? (fun diagnostic =>
      diagnostic.message != "Invalid assignment target.") = some first) :
    ∃ i token fault, (body ++ [eof])[i]? = some token ∧
      firstFault (syntaxErrors limit (body ++ [eof])) = some ⟨i, token, fault⟩ ∧
      first = (SyntaxError.mk i token fault).diagnostic ∧
      (∀ j ≤ i, BeginsProgram ((body ++ [eof]).take j)) ∧
      ¬ BeginsProgram ((body ++ [eof]).take (i + 1)) ∧
      (token.kind = .eof → ¬ IsProgram body) := by
  have source : IsSource body eof := ⟨inside, isEnd⟩
  rcases source.cases with ⟨_, _, errors, _, reports, parsed⟩ |
    ⟨word, token, rest, fault, split, begins, notNested, found, blames⟩ | ⟨error, found, nested⟩
  · rw [parsed, find?_diagnostic, reports.firstFault_eq_none] at reported
    cases reported
  · rw [ofProgram_diagnostics, find?_diagnostic, found] at reported
    refine ⟨word.length, token, fault, ?_, found, (Option.some.inj reported).symm, ?_, ?_, ?_⟩
    · rw [split]
      simp
    · intro j before
      rw [split, List.take_append_of_le_length before]
      exact begins.take j
    · have front : (body ++ [eof]).take (word.length + 1) = word ++ [token] := by
        rw [split, List.take_length_add_append]
        rfl
      rw [front]
      rintro ⟨others, isProgram⟩
      rcases isProgram.settled isEnd with ⟨fits, statements, strays, settled⟩
      have restEnded : Ended (token :: (others ++ [eof])) :=
        (ended_singleton isEnd).append_left (token :: others)
      have same : (word ++ [token] ++ others) ++ [eof] = word ++ token :: (others ++ [eof]) := by
        simp
      exact (blames _ restEnded).not_settles (Persists.program _) notNested same settled
    · intro atEnd
      obtain ⟨rfl, rfl, rfl⟩ := source.eq_of_split split atEnd
      intro isProgram
      rcases isProgram.settled isEnd with ⟨fits, statements, strays, settled⟩
      exact (blames [] (ended_singleton isEnd)).not_settles (Persists.program _) notNested rfl
        settled
  · have member : error.diagnostic ∈ (Parsed.ofProgram limit (body ++ [eof])).diagnostics := by
      rw [ofProgram_diagnostics]
      exact List.mem_map_of_mem (List.mem_of_find?_eq_some found)
    exact absurd (by simp [SyntaxError.diagnostic, nested, Fault.message])
      (shallow error.diagnostic member)

/-- In `a + b = nil; print *;` the first `=` is about a target, and the `*` is
blamed: something could be printed there, but nothing that begins with it. -/
theorem first_offending_token_star :
    ∃ i token fault, (strayBody ++ [blankToken .eof])[i]? = some token ∧
      firstFault (syntaxErrors 100 (strayBody ++ [blankToken .eof])) = some ⟨i, token, fault⟩ ∧
      Diagnostic.mk .parse 1 " at ''" "Expect expression." =
        (SyntaxError.mk i token fault).diagnostic ∧
      (∀ j ≤ i, BeginsProgram ((strayBody ++ [blankToken .eof]).take j)) ∧
      ¬ BeginsProgram ((strayBody ++ [blankToken .eof]).take (i + 1)) ∧
      (token.kind = .eof → ¬ IsProgram strayBody) := by
  have parsed : (Parsed.ofProgram 100 (strayBody ++ [blankToken .eof])).diagnostics =
      [⟨.parse, 1, " at ''", "Invalid assignment target."⟩,
        ⟨.parse, 1, " at ''", "Expect expression."⟩] := by
    rfl
  refine first_offending_token (by decide) rfl ?_ ?_
  · rw [parsed]
    decide
  · rw [parsed]
    decide

end TreeWalker.Grammar
