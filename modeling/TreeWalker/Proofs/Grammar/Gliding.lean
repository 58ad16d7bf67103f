import TreeWalker.Proofs.Grammar.Advance

/-!
# How expressions are read

While an expression is read nothing is noted but stray signs of assignment.  Each of
them is among the tokens that are passed, and is noted once.  No semicolon is passed.
So where an expression is rejected, the cursor has come to the token that is blamed
without having blamed another one.
-/

namespace TreeWalker.Grammar

variable {α β : Type}

/-! ## Stray signs of assignment -/

/-- The error is about the sign of an assignment to what is no variable. -/
def SyntaxError.isStray (error : SyntaxError) : Bool :=
  error.fault == .assignmentTarget

/-- The errors are about different signs of assignment, from one position up to
another. -/
structure StraysWithin (first last : Nat) (errors : List SyntaxError) : Prop where
  strays : ∀ error ∈ errors, error.isStray = true
  signs : ∀ error ∈ errors, error.token.kind = .symbol .equal
  bounds : ∀ error ∈ errors, first ≤ error.position ∧ error.position < last
  distinct : (errors.map SyntaxError.position).Nodup

namespace StraysWithin

variable {first middle last : Nat} {errors errors' : List SyntaxError}

theorem nil (first last : Nat) : StraysWithin first last [] :=
  ⟨by simp, by simp, by simp, List.nodup_nil⟩

theorem mono (within : StraysWithin middle last errors) (before : first ≤ middle) :
    StraysWithin first last errors where
  strays := within.strays
  signs := within.signs
  bounds := fun error member =>
    ⟨Nat.le_trans before (within.bounds error member).1, (within.bounds error member).2⟩
  distinct := within.distinct

/-- Positions in different places are different. -/
theorem append (earlier : StraysWithin first middle errors)
    (later : StraysWithin middle last errors') (forward : first ≤ middle) (back : middle ≤ last) :
    StraysWithin first last (errors ++ errors') where
  strays := List.forall_mem_append.mpr ⟨earlier.strays, later.strays⟩
  signs := List.forall_mem_append.mpr ⟨earlier.signs, later.signs⟩
  bounds := by
    refine List.forall_mem_append.mpr ⟨fun error member => ?_, fun error member => ?_⟩
    · have bounds := earlier.bounds error member
      omega
    · have bounds := later.bounds error member
      omega
  distinct := by
    rw [List.map_append, List.nodup_append]
    refine ⟨earlier.distinct, later.distinct, ?_⟩
    rintro position member _ member' rfl
    obtain ⟨error, noted, rfl⟩ := List.mem_map.mp member
    obtain ⟨error', noted', same⟩ := List.mem_map.mp member'
    have bounds := earlier.bounds error noted
    have bounds' := later.bounds error' noted'
    omega

/-- The sign of an assignment comes before what is assigned. -/
theorem concat (within : StraysWithin (first + 1) last errors) {equal : Token}
    (isEqual : equal.kind = .symbol .equal) (back : first < last) :
    StraysWithin first last (errors ++ [⟨first, equal, .assignmentTarget⟩]) where
  strays := List.forall_mem_append.mpr ⟨within.strays, List.forall_mem_singleton.mpr rfl⟩
  signs := List.forall_mem_append.mpr ⟨within.signs, List.forall_mem_singleton.mpr isEqual⟩
  bounds := by
    refine List.forall_mem_append.mpr ⟨fun error member => ?_,
      List.forall_mem_singleton.mpr ⟨Nat.le_refl _, back⟩⟩
    have bounds := within.bounds error member
    omega
  distinct := by
    rw [List.map_append, List.nodup_append]
    refine ⟨within.distinct, by simp, ?_⟩
    rintro position member _ member' rfl
    obtain ⟨error, noted, rfl⟩ := List.mem_map.mp member
    have bounds := within.bounds error noted
    have same : error.position = first := List.mem_singleton.mp member'
    omega

end StraysWithin

/-! ## Gliding -/

/-- The next token does not end the source. -/
def Cursor.Inside (cursor : Cursor) : Prop :=
  ∃ token rest, cursor.ahead = token :: rest ∧ token.kind ≠ .eof

/-- The way from one cursor to another on which nothing is noted but strays, and on
which no semicolon is passed last. -/
structure Cursor.Glides (cursor later : Cursor) : Prop where
  moves : later = cursor ∨ cursor.Inside ∧ cursor.position < later.position ∧
    later.last ≠ some (.symbol .semicolon)
  notes : ∃ strays, later.errors = cursor.errors ++ strays ∧
    StraysWithin cursor.position later.position strays

namespace Cursor.Glides

variable {cursor middle later : Cursor} {token : Token} {rest : List Token}

theorem refl (cursor : Cursor) : cursor.Glides cursor :=
  ⟨Or.inl rfl, [], by simp, .nil _ _⟩

theorem position_le (glides : cursor.Glides later) : cursor.position ≤ later.position := by
  rcases glides.moves with rfl | ⟨_, further, _⟩
  · exact Nat.le_refl _
  · exact Nat.le_of_lt further

theorem trans (first : cursor.Glides middle) (second : middle.Glides later) :
    cursor.Glides later := by
  refine ⟨?_, ?_⟩
  · rcases second.moves with rfl | ⟨inside, further, last⟩
    · exact first.moves
    · refine Or.inr ⟨?_, Nat.lt_of_le_of_lt first.position_le further, last⟩
      rcases first.moves with rfl | ⟨inside', _⟩
      · exact inside
      · exact inside'
  · obtain ⟨strays, noted, within⟩ := first.notes
    obtain ⟨strays', noted', within'⟩ := second.notes
    exact ⟨strays ++ strays', by rw [noted', noted, List.append_assoc],
      within.append within' first.position_le second.position_le⟩

theorem after (split : cursor.ahead = token :: rest) (inside : token.kind ≠ .eof)
    (noEnd : token.kind ≠ .symbol .semicolon) : cursor.Glides (cursor.after token rest) :=
  ⟨Or.inr ⟨⟨token, rest, split, inside⟩, Nat.lt_succ_self _, by simpa [Cursor.after] using noEnd⟩,
    [], by simp [Cursor.after], .nil _ _⟩

/-- The sign of an assignment is noted when what is assigned has been read. -/
theorem stray (split : cursor.ahead = token :: rest) (isEqual : token.kind = .symbol .equal)
    (glides : (cursor.after token rest).Glides later) :
    cursor.Glides { later with
      errors := later.errors ++ [⟨cursor.position, token, .assignmentTarget⟩] } := by
  have further : cursor.position < later.position := glides.position_le
  refine ⟨Or.inr ⟨⟨token, rest, split, by simp [isEqual]⟩, further, ?_⟩, ?_⟩
  · rcases glides.moves with rfl | ⟨_, _, last⟩
    · simp [Cursor.after, isEqual]
    · exact last
  · obtain ⟨strays, noted, within⟩ := glides.notes
    refine ⟨strays ++ [⟨cursor.position, token, .assignmentTarget⟩], ?_,
      within.concat isEqual further⟩
    simp [noted, Cursor.after]

end Cursor.Glides

/-- The next token has been blamed, and nothing else has happened. -/
def Cursor.Blamed (cursor after : Cursor) : Prop :=
  ∃ token rest fault, cursor.ahead = token :: rest ∧ fault ≠ .assignmentTarget ∧
    after = cursor.blaming token fault

/-- The cursor has glided on to a token that has been blamed. -/
def Cursor.Halts (cursor after : Cursor) : Prop :=
  ∃ middle, cursor.Glides middle ∧ middle.Blamed after

/-! ## Ends of a run -/

/-- A run that succeeds leaves a cursor of one kind, and a run that rejects a token
one of another kind. -/
def EndsIn (succeeds rejects : Cursor → Prop) : EStateM.Result Stop Cursor α → Prop
  | .ok _ after => succeeds after
  | .error .rejected after => rejects after
  | .error _ _ => True

namespace EndsIn

variable {succeeds succeeds' rejects rejects' : Cursor → Prop}

theorem mono {result : EStateM.Result Stop Cursor α} (ends : EndsIn succeeds rejects result)
    (successes : ∀ after, succeeds after → succeeds' after)
    (rejections : ∀ after, rejects after → rejects' after) :
    EndsIn succeeds' rejects' result := by
  cases result with
  | ok a after => exact successes after ends
  | error stop after =>
      cases stop with
      | rejected => exact rejections after ends
      | overNested | exhausted => trivial

theorem bind {parser : Parser α} {next : α → Parser β} {cursor : Cursor}
    (first : EndsIn succeeds rejects (parser cursor))
    (second : ∀ a after, succeeds after → EndsIn succeeds' rejects (next a after)) :
    EndsIn succeeds' rejects ((parser >>= next) cursor) := by
  rw [bind_apply]
  cases run : parser cursor with
  | ok a after =>
      rw [run] at first
      exact second a after first
  | error stop after =>
      rw [run] at first
      cases stop <;> exact first

end EndsIn

/-- A run that goes on from a cursor to which another one has glided. -/
theorem Cursor.Glides.extend {cursor middle : Cursor} {result : EStateM.Result Stop Cursor α}
    (glides : cursor.Glides middle) (ends : EndsIn middle.Glides middle.Halts result) :
    EndsIn cursor.Glides cursor.Halts result :=
  ends.mono (fun _ => glides.trans) fun _ ⟨stopped, further, blamed⟩ =>
    ⟨stopped, glides.trans further, blamed⟩

/-- Kinds of tokens that end neither a sentence nor the source. -/
structure InSentence (accepts : TokenKind → Bool) : Prop where
  semicolon : accepts (.symbol .semicolon) = false
  sourceEnd : accepts .eof = false

namespace InSentence

variable {accepts : TokenKind → Bool} {kind : TokenKind}

theorem ne_semicolon (inside : InSentence accepts) (accepted : accepts kind = true) :
    kind ≠ .symbol .semicolon := by
  rintro rfl
  simp [inside.semicolon] at accepted

theorem ne_eof (inside : InSentence accepts) (accepted : accepts kind = true) :
    kind ≠ .eof := by
  rintro rfl
  simp [inside.sourceEnd] at accepted

end InSentence

/-- A parser that glides on, up to a token that it rejects if it rejects one. -/
def Gliding (parser : Parser α) : Prop :=
  ∀ cursor : Cursor, EndsIn cursor.Glides cursor.Halts (parser cursor)

namespace Gliding

variable {parser : Parser α}

theorem pure (a : α) : Gliding (Pure.pure a : Parser α) := fun cursor => .refl cursor

theorem get : Gliding (MonadState.get : Parser Cursor) := fun cursor => .refl cursor

theorem overNested : Gliding (throw .overNested : Parser α) := fun _ => trivial

theorem exhausted : Gliding (throw .exhausted : Parser α) := fun _ => trivial

theorem bind {next : α → Parser β} (first : Gliding parser) (second : ∀ a, Gliding (next a)) :
    Gliding (parser >>= next) :=
  fun cursor => (first cursor).bind fun a middle glides => glides.extend (second a middle)

theorem reject {fault : Fault} (isFault : fault ≠ .assignmentTarget) :
    Gliding (reject fault : Parser α) := by
  intro cursor
  cases split : cursor.ahead with
  | nil =>
      rw [reject_apply_nil split]
      trivial
  | cons token rest =>
      rw [reject_apply split]
      exact ⟨cursor, .refl cursor, token, rest, fault, split, isFault, rfl⟩

theorem accept? {accepts : TokenKind → Bool} (inside : InSentence accepts) :
    Gliding (accept? accepts) := by
  intro cursor
  cases split : cursor.ahead with
  | nil =>
      rw [accept?_apply_nil split]
      trivial
  | cons token rest =>
      cases accepted : accepts token.kind with
      | true =>
          rw [accept?_apply_some split accepted]
          exact .after split (inside.ne_eof accepted) (inside.ne_semicolon accepted)
      | false =>
          rw [accept?_apply_none split accepted]
          exact .refl cursor

/-- What comes of a token that may be there. -/
theorem accept {accepts : TokenKind → Bool} {next : Option Token → Parser β}
    (inside : InSentence accepts)
    (found : ∀ token, Gliding (next (some token))) (missing : Gliding (next none)) :
    Gliding (Grammar.accept? accepts >>= next) :=
  (accept? inside).bind fun
    | none => missing
    | some token => found token

theorem expect {kind : TokenKind} {fault : Fault} (inside : InSentence (· == kind))
    (isFault : fault ≠ .assignmentTarget) : Gliding (expect kind fault) :=
  accept inside pure (reject isFault)

/-! ## Expressions -/

section Expressions

variable {operand nested : Parser Node}

/-- No level has a semicolon as an operator. -/
theorem inSentence_level {level : Level} (member : level ∈ Level.all) :
    InSentence level.accepts :=
  ⟨by revert level; decide, Level.accepts_eof member⟩

theorem chain {level : Level} (inside : InSentence level.accepts)
    (operands : Gliding operand) (fuel : Nat) (left : Node) (operator : Token) :
    Gliding (chain level operand fuel left operator) := by
  induction fuel generalizing left operator with
  | zero => exact exhausted
  | succ fuel inductionHypothesis =>
      exact operands.bind fun right => accept inside (inductionHypothesis _) (pure _)

theorem operations (operands : Gliding operand) {levels : List Level}
    (inside : ∀ level ∈ levels, InSentence level.accepts) :
    Gliding (operations operand levels) := by
  induction levels with
  | nil => exact operands
  | cons level tighter inductionHypothesis =>
      have tight := inductionHypothesis fun other member => inside other (by simp [member])
      have own := inside level (by simp)
      exact tight.bind fun left => accept own
        (fun operator => get.bind fun _ => chain own tight _ left operator) (pure left)

theorem groupRest (inner : Gliding nested) : Gliding (groupRest nested) :=
  inner.bind fun _ => (expect ⟨rfl, rfl⟩ (by simp)).bind fun _ => pure _

theorem atom (inner : Gliding nested) : Gliding (atom nested) := by
  intro cursor
  cases split : cursor.ahead with
  | nil =>
      rw [atom_apply_nil split]
      trivial
  | cons token rest =>
      rcases atomStart_cases token with ⟨value, constant⟩ | name | opening | other
      · rw [atom_apply_literal split constant]
        exact .after split (fun isEnd => by simp [literalValue?, isEnd] at constant)
          fun isEnd => by simp [literalValue?, isEnd] at constant
      · rw [atom_apply_identifier split name]
        exact .after split (by simp [name]) (by simp [name])
      · rw [atom_apply_group split opening]
        have glides : cursor.Glides (cursor.after token rest) :=
          .after split (by simp [opening]) (by simp [opening])
        exact glides.extend (groupRest inner (cursor.after token rest))
      · rw [atom_apply_reject split other]
        exact reject (by simp) cursor

/-- A stray sign of assignment is noted behind the expression it is in. -/
theorem assignmentRest (inner : Gliding nested) (target : Node) :
    Gliding (assignmentRest nested target) := by
  intro cursor
  cases split : cursor.ahead with
  | nil =>
      rw [assignmentRest_apply_nil split]
      trivial
  | cons token rest =>
      by_cases isEqual : token.kind = .symbol .equal
      · rw [assignmentRest_apply_equal split isEqual]
        have glides : cursor.Glides (cursor.after token rest) :=
          .after split (by simp [isEqual]) (by simp [isEqual])
        refine EndsIn.bind ((inner (cursor.after token rest)).mono (fun _ => id) ?_)
          fun value later further => ?_
        · rintro after ⟨stopped, further, blamed⟩
          exact ⟨stopped, glides.trans further, blamed⟩
        · cases target
          case reference name => exact glides.trans further
          all_goals exact further.stray split isEqual
      · rw [assignmentRest_apply_other split isEqual]
        exact .refl cursor

theorem expressionOf (operands : Gliding operand) (inner : Gliding nested) :
    Gliding (expressionOf operand nested) := by
  rw [expressionOf_eq]
  exact (operations operands fun _ => inSentence_level).bind fun target =>
    assignmentRest inner target

theorem operandOf (operands : Gliding operand) (inner : Gliding nested) :
    Gliding (operandOf operand nested) :=
  accept ⟨rfl, rfl⟩ (fun _ => operands.bind fun _ => pure _) (atom inner)

end Expressions

theorem expression_and_operand (levels : Nat) :
    Gliding (expression levels) ∧ Gliding (operand levels) := by
  induction levels with
  | zero => exact ⟨overNested, overNested⟩
  | succ levels inductionHypothesis =>
      rcases inductionHypothesis with ⟨expressions, operands⟩
      exact ⟨expressionOf operands expressions, operandOf operands expressions⟩

theorem expression (levels : Nat) : Gliding (expression levels) :=
  (expression_and_operand levels).1

theorem condition {expr : Parser Node} (guarded : Guarded) (exprs : Gliding expr) :
    Gliding (condition guarded expr) :=
  (expect ⟨rfl, rfl⟩ (by simp)).bind fun _ => exprs.bind fun _ =>
    (expect ⟨rfl, rfl⟩ (by simp)).bind fun _ => pure _

end Gliding

end TreeWalker.Grammar
