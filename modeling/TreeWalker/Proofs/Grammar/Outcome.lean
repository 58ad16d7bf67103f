import TreeWalker.Proofs.Grammar.Loop

/-!
# What comes of a parser

Away from recovery a parser comes to one of three ends.  It takes a word and
notes nothing but the stray tokens of the word; or it blames a token, after a
word that it has accepted; or it gives up because the nesting is too deep.  What
it does after it has blamed a token does not count here.

Each end depends on the tokens ahead only, and not on anything else in the
cursor.  A parser that takes a word looks at one token after it, and a parser
that blames a token has seen nothing beyond that token.
-/

namespace TreeWalker.Grammar

variable {α β : Type}

/-- The first error that is not about a stray token. -/
def firstFault (errors : List SyntaxError) : Option SyntaxError :=
  errors.find? fun error => error.fault != .assignmentTarget

/-- The errors are about the given stray tokens and nothing else. -/
def Reports (strays : List Token) (errors : List SyntaxError) : Prop :=
  errors.map (fun error => (error.token, error.fault)) =
    strays.map fun token => (token, .assignmentTarget)

theorem Reports.append {strays strays' : List Token} {errors errors' : List SyntaxError}
    (first : Reports strays errors) (second : Reports strays' errors') :
    Reports (strays ++ strays') (errors ++ errors') := by
  unfold Reports at first second ⊢
  rw [List.map_append, List.map_append, first, second]

theorem Reports.firstFault_eq_none {strays : List Token} {errors : List SyntaxError}
    (reports : Reports strays errors) : firstFault errors = none := by
  rw [firstFault, List.find?_eq_none]
  intro error member
  have listed : (error.token, error.fault) ∈
      strays.map fun token => (token, Fault.assignmentTarget) := by
    rw [← reports]
    exact List.mem_map_of_mem (f := fun error => (error.token, error.fault)) member
  rcases List.mem_map.mp listed with ⟨token, _, same⟩
  have isStray : error.fault = .assignmentTarget := (congrArg Prod.snd same).symm
  simp [isStray]

/-! ## Moves of the cursor -/

/-- The cursor after a word with some stray tokens. -/
structure Cursor.Past (cursor : Cursor) (word strays rest : List Token) (after : Cursor) :
    Prop where
  ahead : after.ahead = rest
  position : after.position = cursor.position + word.length
  errors : ∃ errors, after.errors = cursor.errors ++ errors ∧ Reports strays errors

/-- An error is the first on the way to a later cursor that is not about a stray
token. -/
def Cursor.FirstNote (cursor later : Cursor) (error : SyntaxError) : Prop :=
  ∃ errors, later.errors = cursor.errors ++ errors ∧ firstFault errors = some error

theorem Cursor.Past.refl (cursor : Cursor) : cursor.Past [] [] cursor.ahead cursor :=
  ⟨rfl, rfl, [], by simp, rfl⟩

theorem Cursor.Past.trans {cursor middle after : Cursor}
    {word word' strays strays' rest rest' : List Token}
    (first : cursor.Past word strays rest middle) (second : middle.Past word' strays' rest' after) :
    cursor.Past (word ++ word') (strays ++ strays') rest' after := by
  rcases first.errors with ⟨errors, noted, reports⟩
  rcases second.errors with ⟨errors', noted', reports'⟩
  refine ⟨second.ahead, ?_, errors ++ errors', ?_, reports.append reports'⟩
  · rw [second.position, first.position, List.length_append, Nat.add_assoc]
  · rw [noted', noted, List.append_assoc]

/-- Past a word without stray tokens nothing is noted. -/
theorem Cursor.Past.errors_eq {cursor after : Cursor} {word rest : List Token}
    (past : cursor.Past word [] rest after) : after.errors = cursor.errors := by
  obtain ⟨errors, noted, reports⟩ := past.errors
  have nothing : errors = [] := List.map_eq_nil_iff.mp reports
  rw [noted, nothing, List.append_nil]

theorem Cursor.past_after (cursor : Cursor) (token : Token) (rest : List Token) :
    cursor.Past [token] [] rest (cursor.after token rest) :=
  ⟨rfl, rfl, [], by simp [Cursor.after], rfl⟩

namespace Cursor.FirstNote

variable {cursor middle later : Cursor} {error : SyntaxError}

/-- What is noted later does not change what was noted first. -/
theorem leads (first : cursor.FirstNote middle error) (leads : middle.Leads later) :
    cursor.FirstNote later error := by
  obtain ⟨errors, noted, found⟩ := first
  rcases leads.notes with ⟨errors', noted'⟩
  refine ⟨errors ++ errors', ?_, ?_⟩
  · rw [noted', noted, List.append_assoc]
  · rw [firstFault] at found ⊢
    rw [List.find?_append, found, Option.some_or]

/-- Errors about stray tokens do not count. -/
theorem of_soft {errors : List SyntaxError} (noted : middle.errors = cursor.errors ++ errors)
    (soft : firstFault errors = none) (first : middle.FirstNote later error) :
    cursor.FirstNote later error := by
  rcases first with ⟨errors', noted', found⟩
  refine ⟨errors ++ errors', ?_, ?_⟩
  · rw [noted', noted, List.append_assoc]
  · rw [firstFault] at soft found ⊢
    rw [List.find?_append, soft, found, Option.none_or]

theorem of_past {word strays rest : List Token} (past : cursor.Past word strays rest middle)
    (first : middle.FirstNote later error) : cursor.FirstNote later error := by
  rcases past.errors with ⟨errors, noted, reports⟩
  exact of_soft noted reports.firstFault_eq_none first

theorem unique {error' : SyntaxError} (first : cursor.FirstNote later error)
    (first' : cursor.FirstNote later error') : error = error' := by
  obtain ⟨errors, noted, found⟩ := first
  rcases first' with ⟨errors', noted', found'⟩
  have same : errors = errors' := List.append_cancel_left (noted.symm.trans noted')
  rw [same, found'] at found
  exact (Option.some.inj found).symm

/-- Past a word, nothing but stray tokens was noted. -/
theorem not_past {word strays rest : List Token} (first : cursor.FirstNote later error) :
    ¬ cursor.Past word strays rest later := by
  intro past
  rcases first with ⟨errors, noted, found⟩
  rcases past.errors with ⟨errors', noted', reports⟩
  have same : errors = errors' := List.append_cancel_left (noted.symm.trans noted')
  rw [same, reports.firstFault_eq_none] at found
  cases found

end Cursor.FirstNote

/-! ## The three ends -/

/-- The parser takes a word in front of the given tokens. -/
def Takes (parser : Parser α) (a : α) (word strays rest : List Token) : Prop :=
  ∀ cursor : Cursor, cursor.ahead = word ++ rest →
    ∃ after, parser cursor = .ok a after ∧ cursor.Past word strays rest after

/-- The parser blames the token after a word. -/
def Blames (parser : Parser α) (word : List Token) (token : Token) (fault : Fault)
    (rest : List Token) : Prop :=
  ∀ cursor : Cursor, cursor.ahead = word ++ token :: rest →
    cursor.FirstNote (cursorOf (parser cursor)) ⟨cursor.position + word.length, token, fault⟩

/-- The parser gives up, or has given up a declaration before it blamed a token. -/
def GivesUp (parser : Parser α) (ahead : List Token) : Prop :=
  ∀ cursor : Cursor, cursor.ahead = ahead →
    (∃ after errors, parser cursor = .error .overNested after ∧
      after.errors = cursor.errors ++ errors ∧ firstFault errors = none) ∨
    ∃ error, error.fault = .nesting ∧ cursor.FirstNote (cursorOf (parser cursor)) error

/-- No word fits into no levels at all. -/
theorem GivesUp.overNested (ahead : List Token) : GivesUp (throw .overNested : Parser α) ahead :=
  fun cursor _ => Or.inl ⟨cursor, [], rfl, by simp, rfl⟩

theorem Takes.bind {parser : Parser α} {next : α → Parser β} {a : α} {b : β}
    {word word' strays strays' rest : List Token}
    (first : Takes parser a word strays (word' ++ rest))
    (second : Takes (next a) b word' strays' rest) :
    Takes (parser >>= next) b (word ++ word') (strays ++ strays') rest := by
  intro cursor split
  rw [List.append_assoc] at split
  obtain ⟨middle, firstRun, firstPast⟩ := first cursor split
  rcases second middle firstPast.ahead with ⟨after, secondRun, secondPast⟩
  exact ⟨after, (bind_apply_ok firstRun).trans secondRun, firstPast.trans secondPast⟩

/-- A step that takes no token before a parser. -/
theorem Takes.unseen {step : Parser Unit} {next : Parser α} {a : α}
    {word strays rest : List Token} (first : ∀ rest, Takes step () [] [] rest)
    (second : Takes next a word strays rest) :
    Takes (step >>= fun _ => next) a word strays rest := by
  have both : Takes (step >>= fun _ => next) a ([] ++ word) ([] ++ strays) rest :=
    Takes.bind (first _) second
  exact both

theorem Blames.bind {parser : Parser α} {next : α → Parser β} {word rest : List Token}
    {token : Token} {fault : Fault} (blames : Blames parser word token fault rest)
    (orderly : ∀ a, Orderly (next a)) : Blames (parser >>= next) word token fault rest := by
  intro cursor split
  have first := blames cursor split
  cases run : parser cursor with
  | ok a middle =>
      rw [run] at first
      rw [bind_apply_ok run]
      exact first.leads (orderly a middle)
  | error stop middle =>
      rw [run] at first
      rw [bind_apply_error run]
      exact first

theorem Blames.after {parser : Parser α} {next : α → Parser β} {a : α}
    {word word' strays rest : List Token} {token : Token} {fault : Fault}
    (first : Takes parser a word strays (word' ++ token :: rest))
    (second : Blames (next a) word' token fault rest) :
    Blames (parser >>= next) (word ++ word') token fault rest := by
  intro cursor split
  rw [List.append_assoc] at split
  rcases first cursor split with ⟨middle, run, past⟩
  have note := second middle past.ahead
  rw [past.position, Nat.add_assoc, ← List.length_append] at note
  rw [bind_apply_ok run]
  exact note.of_past past

theorem GivesUp.bind {parser : Parser α} {next : α → Parser β} {ahead : List Token}
    (givesUp : GivesUp parser ahead) (orderly : ∀ a, Orderly (next a)) :
    GivesUp (parser >>= next) ahead := by
  intro cursor split
  rcases givesUp cursor split with ⟨after, errors, run, noted, soft⟩ | ⟨error, nested, first⟩
  · exact Or.inl ⟨after, errors, bind_apply_error run, noted, soft⟩
  · refine Or.inr ⟨error, nested, ?_⟩
    cases run : parser cursor with
    | ok a middle =>
        rw [run] at first
        rw [bind_apply_ok run]
        exact first.leads (orderly a middle)
    | error stop middle =>
        rw [run] at first
        rw [bind_apply_error run]
        exact first

/-- A parser that goes on as another one past a word gives up if the other one does. -/
theorem GivesUp.along {parser other : Parser α} {word strays rest : List Token}
    (goesOn : ∀ cursor : Cursor, cursor.ahead = word ++ rest →
      ∃ middle, cursor.Past word strays rest middle ∧ parser cursor = other middle)
    (givesUp : GivesUp other rest) : GivesUp parser (word ++ rest) := by
  intro cursor split
  rcases goesOn cursor split with ⟨middle, past, same⟩
  obtain ⟨errors, noted, reports⟩ := past.errors
  rw [same]
  rcases givesUp middle past.ahead with ⟨after, errors', run', noted', soft'⟩ |
    ⟨error, nested, note⟩
  · refine Or.inl ⟨after, errors ++ errors', run', ?_, ?_⟩
    · rw [noted', noted, List.append_assoc]
    · have soft := reports.firstFault_eq_none
      rw [firstFault] at soft soft' ⊢
      rw [List.find?_append, soft, soft', Option.none_or]
  · exact Or.inr ⟨error, nested, note.of_past past⟩

theorem GivesUp.after {parser : Parser α} {next : α → Parser β} {a : α}
    {word strays rest : List Token} (first : Takes parser a word strays rest)
    (second : GivesUp (next a) rest) : GivesUp (parser >>= next) (word ++ rest) :=
  second.along fun cursor split =>
    let ⟨middle, run, past⟩ := first cursor split
    ⟨middle, past, bind_apply_ok run⟩

/-- A parser that takes a token and then behaves as another one. -/
theorem Takes.pass {parser other : Parser α} {a : α} {token : Token}
    {word strays rest : List Token} (takes : Takes other a word strays rest)
    (step : ∀ cursor : Cursor, cursor.ahead = token :: (word ++ rest) →
      parser cursor = other (cursor.after token (word ++ rest))) :
    Takes parser a (token :: word) strays rest := by
  intro cursor split
  rcases takes (cursor.after token (word ++ rest)) rfl with ⟨after, run, past⟩
  rw [step cursor split]
  exact ⟨after, run, (cursor.past_after token _).trans past⟩

theorem GivesUp.pass {parser other : Parser α} {token : Token} {ahead : List Token}
    (givesUp : GivesUp other ahead)
    (step : ∀ cursor : Cursor, cursor.ahead = token :: ahead →
      parser cursor = other (cursor.after token ahead)) : GivesUp parser (token :: ahead) :=
  givesUp.along fun cursor split => ⟨_, cursor.past_after token ahead, step cursor split⟩

/-- A word is taken in one way only. -/
theorem Takes.unique {parser : Parser α} {a a' : α} {word strays strays' rest : List Token}
    (first : Takes parser a word strays rest) (second : Takes parser a' word strays' rest) :
    a = a' := by
  rcases first (Cursor.atStart (word ++ rest)) rfl with ⟨after, run, _⟩
  rcases second (Cursor.atStart (word ++ rest)) rfl with ⟨after', run', _⟩
  rw [run] at run'
  cases run'
  rfl

/-- What takes a word does not give up on it. -/
theorem Takes.not_givesUp {parser : Parser α} {a : α} {word strays rest : List Token}
    (takes : Takes parser a word strays rest) : ¬ GivesUp parser (word ++ rest) := by
  intro givesUp
  rcases takes (Cursor.atStart (word ++ rest)) rfl with ⟨after, run, past⟩
  rcases givesUp (Cursor.atStart (word ++ rest)) rfl with ⟨_, _, stops, _⟩ | ⟨_, _, first⟩
  · rw [run] at stops
    cases stops
  · rw [run] at first
    exact first.not_past past

/-! ## Single tokens -/

section Tokens

variable {token : Token}

theorem Takes.pure (a : α) (rest : List Token) : Takes (Pure.pure a) a [] [] rest := by
  intro cursor split
  have past := Cursor.Past.refl cursor
  rw [show cursor.ahead = rest from split] at past
  exact ⟨cursor, rfl, past⟩

theorem takes_accept?_some {accepts : TokenKind → Bool} (accepted : accepts token.kind = true)
    (rest : List Token) : Takes (accept? accepts) (some token) [token] [] rest := by
  intro cursor split
  exact ⟨_, accept?_apply_some split accepted, cursor.past_after token rest⟩

theorem takes_accept?_none {accepts : TokenKind → Bool} (refused : accepts token.kind = false)
    (rest : List Token) : Takes (accept? accepts) none [] [] (token :: rest) := by
  intro cursor split
  have past := Cursor.Past.refl cursor
  rw [show cursor.ahead = token :: rest from split] at past
  exact ⟨cursor, accept?_apply_none split refused, past⟩

theorem takes_expect {kind : TokenKind} (same : token.kind = kind) (fault : Fault)
    (rest : List Token) : Takes (expect kind fault) token [token] [] rest := by
  intro cursor split
  exact ⟨_, expect_apply split same fault, cursor.past_after token rest⟩

/-- A token that must follow a result. -/
theorem takes_expect_pure {kind : TokenKind} (same : token.kind = kind) (fault : Fault) (a : α)
    (rest : List Token) :
    Takes (expect kind fault >>= fun _ => Pure.pure a) a [token] [] rest := by
  intro cursor split
  rw [bind_apply_ok (expect_apply split same fault)]
  exact ⟨_, rfl, cursor.past_after token rest⟩

end Tokens

end TreeWalker.Grammar
