import TreeWalker.Grammar.Program
import TreeWalker.Proofs.Sequencing

/-!
# Parsers move forward

A parser never goes back: the tokens ahead of it at the end are what it has left
of those ahead of it at the start, it has passed no token for the end of the
source, and it has only added to the errors noted before.  Every parser of the
grammar is orderly in this sense, on every token list and however it ends.

Parsers of operands and of statements also advance: they take a token before
they succeed.  The two loops of the grammar are given as many rounds as there
are tokens ahead, and since what they repeat advances, they behave as if they
had no bound.
-/

namespace TreeWalker.Grammar

variable {α β : Type}

/-- A token list with a token for the end of the source. -/
def Ended (tokens : List Token) : Prop :=
  ∃ token ∈ tokens, token.kind = .eof

theorem Ended.ne_nil {tokens : List Token} (ended : Ended tokens) : tokens ≠ [] := by
  rintro rfl
  rcases ended with ⟨token, member, _⟩
  exact absurd member List.not_mem_nil

theorem Ended.length_pos {tokens : List Token} (ended : Ended tokens) : 0 < tokens.length :=
  List.length_pos_iff.mpr ended.ne_nil

/-- An ended list has a next token. -/
theorem Ended.exists_cons {tokens : List Token} (ended : Ended tokens) :
    ∃ next rest, tokens = next :: rest :=
  List.exists_cons_of_ne_nil ended.ne_nil

theorem Ended.append_left {tokens : List Token} (ended : Ended tokens) (word : List Token) :
    Ended (word ++ tokens) := by
  rcases ended with ⟨token, member, isEnd⟩
  exact ⟨token, List.mem_append_right word member, isEnd⟩

theorem Ended.of_append {word tokens : List Token} (ended : Ended (word ++ tokens))
    (inside : ∀ token ∈ word, token.kind ≠ .eof) : Ended tokens := by
  rcases ended with ⟨token, member, isEnd⟩
  rcases List.mem_append.mp member with before | after
  · exact absurd isEnd (inside token before)
  · exact ⟨token, after, isEnd⟩

theorem Ended.tail {token : Token} {rest : List Token} (ended : Ended (token :: rest))
    (inside : token.kind ≠ .eof) : Ended rest :=
  @Ended.of_append [token] rest ended (by simpa using inside)

/-- The cursor with which a parser ends. -/
def cursorOf : EStateM.Result Stop Cursor α → Cursor
  | .ok _ cursor => cursor
  | .error _ cursor => cursor

@[simp]
theorem cursorOf_ok (a : α) (cursor : Cursor) :
    cursorOf (.ok a cursor : EStateM.Result Stop Cursor α) = cursor :=
  rfl

@[simp]
theorem cursorOf_error (stop : Stop) (cursor : Cursor) :
    cursorOf (.error stop cursor : EStateM.Result Stop Cursor α) = cursor :=
  rfl

/-! ## Orderly parsers -/

/-- The way from one cursor to a later one: the tokens passed, none of which
ends the source, and the errors noted. -/
structure Cursor.Leads (cursor later : Cursor) : Prop where
  passes : ∃ word, cursor.ahead = word ++ later.ahead ∧
    later.position = cursor.position + word.length ∧ ∀ token ∈ word, token.kind ≠ .eof
  notes : ∃ errors, later.errors = cursor.errors ++ errors

namespace Cursor.Leads

variable {cursor middle later : Cursor}

theorem refl (cursor : Cursor) : cursor.Leads cursor :=
  ⟨⟨[], by simp⟩, ⟨[], by simp⟩⟩

theorem trans (first : cursor.Leads middle) (second : middle.Leads later) :
    cursor.Leads later := by
  obtain ⟨⟨word, split, place, inside⟩, ⟨errors, noted⟩⟩ := first
  rcases second with ⟨⟨word', split', place', inside'⟩, ⟨errors', noted'⟩⟩
  refine ⟨⟨word ++ word', ?_, ?_, ?_⟩, ⟨errors ++ errors', ?_⟩⟩
  · rw [split, split', List.append_assoc]
  · rw [place', place, List.length_append, Nat.add_assoc]
  · intro token member
    rcases List.mem_append.mp member with before | after
    · exact inside token before
    · exact inside' token after
  · rw [noted', noted, List.append_assoc]

theorem ended (leads : cursor.Leads later) (ended : Ended cursor.ahead) : Ended later.ahead := by
  rcases leads.passes with ⟨word, split, _, inside⟩
  rw [split] at ended
  exact ended.of_append inside

theorem length_le (leads : cursor.Leads later) : later.ahead.length ≤ cursor.ahead.length := by
  rcases leads.passes with ⟨word, split, _⟩
  simp [split]

/-- A cursor that has moved has fewer tokens ahead. -/
theorem length_lt_of_position_ne (leads : cursor.Leads later)
    (moved : later.position ≠ cursor.position) :
    later.ahead.length < cursor.ahead.length := by
  obtain ⟨word, split, place, _⟩ := leads.passes
  have nonempty : word.length ≠ 0 := fun empty => moved (by omega)
  rw [split, List.length_append]
  omega

end Cursor.Leads

/-- A parser that moves forward only, however it ends. -/
def Orderly (parser : Parser α) : Prop :=
  ∀ cursor : Cursor, cursor.Leads (cursorOf (parser cursor))

/-- A parser that takes a token before it succeeds. -/
def Advances (parser : Parser α) : Prop :=
  ∀ cursor a after, parser cursor = .ok a after → after.ahead.length < cursor.ahead.length

namespace Orderly

theorem pure (a : α) : Orderly (Pure.pure a : Parser α) := fun cursor =>
  Cursor.Leads.refl cursor

theorem throw (stop : Stop) : Orderly (MonadExcept.throw stop : Parser α) := fun cursor =>
  Cursor.Leads.refl cursor

theorem bind {parser : Parser α} {next : α → Parser β} (first : Orderly parser)
    (second : ∀ a, Orderly (next a)) : Orderly (parser >>= next) := by
  intro cursor
  have leads := first cursor
  rw [bind_apply]
  cases run : parser cursor with
  | error stop after =>
      rw [run] at leads
      exact leads
  | ok a after =>
      rw [run] at leads
      exact leads.trans (second a after)

theorem leads {parser : Parser α} (orderly : Orderly parser) {cursor after : Cursor} {a : α}
    (run : parser cursor = .ok a after) : cursor.Leads after := by
  have leads := orderly cursor
  rw [run] at leads
  exact leads

end Orderly

theorem Advances.bind {parser : Parser α} {next : α → Parser β} (first : Advances parser)
    (second : ∀ a, Orderly (next a)) : Advances (parser >>= next) := by
  intro cursor b after run
  rcases bind_eq_ok_iff.mp run with ⟨a, middle, firstRun, secondRun⟩
  have shorter := first cursor a middle firstRun
  have rest := ((second a).leads secondRun).length_le
  omega

theorem Advances.bind_right {parser : Parser α} {next : α → Parser β} (first : Orderly parser)
    (second : ∀ a, Advances (next a)) : Advances (parser >>= next) := by
  intro cursor b after run
  rcases bind_eq_ok_iff.mp run with ⟨a, middle, firstRun, secondRun⟩
  have leads := (first.leads firstRun).length_le
  have rest := second a middle b after secondRun
  omega

/-! ## Single tokens -/

/-- The cursor after the next token. -/
def Cursor.after (cursor : Cursor) (token : Token) (rest : List Token) : Cursor :=
  { cursor with ahead := rest, position := cursor.position + 1, last := some token.kind }

/-- The cursor after a fault was noted at the next token. -/
def Cursor.blaming (cursor : Cursor) (token : Token) (fault : Fault) : Cursor :=
  { cursor with errors := cursor.errors ++ [⟨cursor.position, token, fault⟩] }

section Tokens

variable {cursor : Cursor} {token : Token} {rest : List Token}

theorem nextToken_apply (split : cursor.ahead = token :: rest) :
    nextToken cursor = .ok token cursor := by
  simp [nextToken, split]

theorem passToken_apply (split : cursor.ahead = token :: rest) :
    passToken cursor = .ok () (cursor.after token rest) := by
  simp [passToken, split, Cursor.after]

theorem accept?_apply_some {accepts : TokenKind → Bool} (split : cursor.ahead = token :: rest)
    (accepted : accepts token.kind = true) :
    accept? accepts cursor = .ok (some token) (cursor.after token rest) := by
  rw [accept?, bind_apply_ok (nextToken_apply split), if_pos accepted,
    bind_apply_ok (passToken_apply split)]
  rfl

theorem accept?_apply_none {accepts : TokenKind → Bool} (split : cursor.ahead = token :: rest)
    (refused : accepts token.kind = false) : accept? accepts cursor = .ok none cursor := by
  rw [accept?, bind_apply_ok (nextToken_apply split), if_neg (by simp [refused])]
  rfl

theorem noteNext_apply (split : cursor.ahead = token :: rest) (fault : Fault) :
    noteNext fault cursor = .ok () (cursor.blaming token fault) := by
  rw [noteNext, bind_apply_ok (nextToken_apply split)]
  rfl

theorem reject_apply (split : cursor.ahead = token :: rest) (fault : Fault) :
    (reject fault : Parser α) cursor = .error .rejected (cursor.blaming token fault) := by
  rw [reject, bind_apply_ok (noteNext_apply split fault)]
  rfl

theorem nextToken_apply_nil (split : cursor.ahead = []) :
    nextToken cursor = .error .exhausted cursor := by
  simp [nextToken, split]

theorem accept?_apply_nil {accepts : TokenKind → Bool} (split : cursor.ahead = []) :
    accept? accepts cursor = .error .exhausted cursor :=
  bind_apply_error (nextToken_apply_nil split)

theorem expect_apply_nil {kind : TokenKind} (split : cursor.ahead = []) (fault : Fault) :
    expect kind fault cursor = .error .exhausted cursor :=
  bind_apply_error (accept?_apply_nil split)

theorem noteNext_apply_nil (split : cursor.ahead = []) (fault : Fault) :
    noteNext fault cursor = .error .exhausted cursor :=
  bind_apply_error (nextToken_apply_nil split)

theorem reject_apply_nil (split : cursor.ahead = []) (fault : Fault) :
    (reject fault : Parser α) cursor = .error .exhausted cursor :=
  bind_apply_error (noteNext_apply_nil split fault)

/-- A rejection is no success. -/
theorem reject_ne_ok (fault : Fault) (a : α) (after : Cursor) :
    (reject fault : Parser α) cursor ≠ .ok a after := by
  intro run
  cases split : cursor.ahead with
  | nil =>
      rw [reject_apply_nil split] at run
      cases run
  | cons token rest =>
      rw [reject_apply split] at run
      cases run

theorem expect_apply {kind : TokenKind} (split : cursor.ahead = token :: rest)
    (same : token.kind = kind) (fault : Fault) :
    expect kind fault cursor = .ok token (cursor.after token rest) := by
  rw [expect, bind_apply_ok (accept?_apply_some split (by simp [same]))]
  rfl

theorem expect_apply_ne {kind : TokenKind} (split : cursor.ahead = token :: rest)
    (other : token.kind ≠ kind) (fault : Fault) :
    expect kind fault cursor = .error .rejected (cursor.blaming token fault) := by
  rw [expect, bind_apply_ok (accept?_apply_none split (by simp [other]))]
  exact reject_apply split fault

theorem Cursor.leads_after (split : cursor.ahead = token :: rest) (inside : token.kind ≠ .eof) :
    cursor.Leads (cursor.after token rest) :=
  ⟨⟨[token], by simpa [Cursor.after, split] using inside⟩, ⟨[], by simp [Cursor.after]⟩⟩

end Tokens

namespace Orderly

theorem nextToken : Orderly nextToken := by
  intro cursor
  cases split : cursor.ahead with
  | nil => simpa [nextToken_apply_nil split] using Cursor.Leads.refl cursor
  | cons token rest => simpa [nextToken_apply split] using Cursor.Leads.refl cursor

theorem note (position : Nat) (token : Token) (fault : Fault) :
    Orderly (note position token fault) := by
  intro cursor
  change cursor.Leads { cursor with errors := cursor.errors ++ [⟨position, token, fault⟩] }
  exact ⟨⟨[], by simp⟩, ⟨[⟨position, token, fault⟩], rfl⟩⟩

theorem modifyOpenBlocks (change : Cursor → Nat) :
    Orderly (modify fun cursor => { cursor with openBlocks := change cursor }) := by
  intro cursor
  change cursor.Leads { cursor with openBlocks := change cursor }
  exact ⟨⟨[], by simp⟩, ⟨[], by simp⟩⟩

theorem get : Orderly (MonadState.get : Parser Cursor) := fun cursor =>
  Cursor.Leads.refl cursor

theorem noteNext (fault : Fault) : Orderly (noteNext fault) :=
  nextToken.bind fun token => get.bind fun cursor => note cursor.position token fault

theorem reject (fault : Fault) : Orderly (reject fault : Parser α) :=
  (noteNext fault).bind fun _ => throw .rejected

theorem accept? {accepts : TokenKind → Bool} (sourceEnd : accepts .eof = false) :
    Orderly (accept? accepts) := by
  intro cursor
  cases split : cursor.ahead with
  | nil =>
      rw [accept?_apply_nil split]
      exact Cursor.Leads.refl cursor
  | cons token rest =>
      cases accepted : accepts token.kind with
      | false =>
          rw [accept?_apply_none split accepted]
          exact Cursor.Leads.refl cursor
      | true =>
          rw [accept?_apply_some split accepted]
          exact Cursor.leads_after split (fun isEnd => by simp [isEnd, sourceEnd] at accepted)

theorem expect {kind : TokenKind} (inside : kind ≠ .eof) (fault : Fault) :
    Orderly (expect kind fault) := by
  refine (accept? (by simpa using Ne.symm inside)).bind fun found => ?_
  cases found with
  | none => exact reject fault
  | some token => exact pure token

end Orderly

end TreeWalker.Grammar
