import TreeWalker.Proofs.Grammar.Gliding
import TreeWalker.Proofs.Grammar.Semicolon

/-!
# Errors behind a cursor

The errors noted are tidy if they come in the order of the tokens they name, apart from
stray signs of assignment, and if no token behind the cursor is blamed more than twice.
A token may be blamed twice only if it is a keyword that begins a statement for which
the grammar has no rule.

Between declarations the cursor is ready: the next token was blamed at most once, and
only if parsing may go on there.  In a declaration the cursor is calm, which means that
the next token was not blamed and that the last one was no semicolon.
-/

namespace TreeWalker.Grammar

/-! ## The errors of a run -/

/-- The errors that are not about stray signs of assignment. -/
def faults (errors : List SyntaxError) : List SyntaxError :=
  errors.filter fun error => !error.isStray

/-- The errors about stray signs of assignment. -/
def strays (errors : List SyntaxError) : List SyntaxError :=
  errors.filter SyntaxError.isStray

/-- How often the token at a position is blamed. -/
def blameCount (errors : List SyntaxError) (position : Nat) : Nat :=
  (faults errors).countP fun error => error.position == position

/-- Keywords that begin a statement for which the grammar has no rule. -/
def lacksRule : TokenKind → Bool
  | .keyword .kwClass | .keyword .kwFun | .keyword .kwFor | .keyword .kwReturn => true
  | _ => false

/-- The token at a position is blamed twice at most, and twice only if the grammar
has no rule for it. -/
structure Bearable (errors : List SyntaxError) (position : Nat) : Prop where
  twice : blameCount errors position ≤ 2
  noRule : blameCount errors position = 2 →
    ∃ error ∈ faults errors, error.position = position ∧ lacksRule error.token.kind = true

section Errors

variable {errors noted : List SyntaxError} {first last position : Nat} {error : SyntaxError}

theorem faults_strays (within : StraysWithin first last noted) :
    faults (errors ++ noted) = faults errors := by
  have none : faults noted = [] :=
    List.filter_eq_nil_iff.mpr fun error member => by simp [within.strays error member]
  rw [faults, List.filter_append]
  exact (congrArg _ none).trans (List.append_nil _)

theorem strays_strays (within : StraysWithin first last noted) :
    strays (errors ++ noted) = strays errors ++ noted := by
  rw [strays, List.filter_append, List.filter_eq_self.mpr within.strays]
  rfl

theorem faults_concat (isFault : error.fault ≠ .assignmentTarget) :
    faults (errors ++ [error]) = faults errors ++ [error] := by
  simp [faults, SyntaxError.isStray, isFault]

theorem strays_concat (isFault : error.fault ≠ .assignmentTarget) :
    strays (errors ++ [error]) = strays errors := by
  simp [strays, SyntaxError.isStray, isFault]

theorem blameCount_concat (isFault : error.fault ≠ .assignmentTarget) (position : Nat) :
    blameCount (errors ++ [error]) position =
      blameCount errors position + if error.position = position then 1 else 0 := by
  simp [blameCount, faults_concat isFault, List.countP_cons]

/-- A token that no error names is not blamed. -/
theorem blameCount_eq_zero (others : ∀ error ∈ faults errors, error.position ≠ position) :
    blameCount errors position = 0 :=
  List.countP_eq_zero.mpr fun error member => by simpa using others error member

theorem Bearable.of_le_one (once : blameCount errors position ≤ 1) : Bearable errors position :=
  ⟨by omega, fun twice => by omega⟩

end Errors

/-! ## Tidy cursors -/

/-- The errors noted are in order, and no token behind the cursor is blamed too often. -/
structure Cursor.Tidy (cursor : Cursor) : Prop where
  ordered : (faults cursor.errors).Pairwise fun earlier later => earlier.position ≤ later.position
  reached : ∀ error ∈ faults cursor.errors, error.position ≤ cursor.position
  bearable : ∀ position < cursor.position, Bearable cursor.errors position
  strays : StraysWithin 0 cursor.position (strays cursor.errors)

/-- The next token has not been blamed. -/
structure Cursor.Fresh (cursor : Cursor) : Prop extends Cursor.Tidy cursor where
  blameless : blameCount cursor.errors cursor.position = 0

/-- The next token has not been blamed, and no sentence has just been finished. -/
structure Cursor.Calm (cursor : Cursor) : Prop extends Cursor.Fresh cursor where
  last : cursor.last ≠ some (.symbol .semicolon)

/-- A declaration may begin: the next token has been blamed at most once, and only if
parsing may go on there. -/
structure Cursor.Ready (cursor : Cursor) : Prop extends Cursor.Tidy cursor where
  next : ∀ token rest, cursor.ahead = token :: rest → token.kind ≠ .eof →
    blameCount cursor.errors cursor.position ≤ 1 ∧
      (blameCount cursor.errors cursor.position = 1 → Bounds token.kind cursor.openBlocks)

/-- The source ends here. -/
structure Cursor.Finished (cursor : Cursor) : Prop extends Cursor.Tidy cursor where
  next : ∃ token rest, cursor.ahead = token :: rest ∧ token.kind = .eof

section Cursors

variable {cursor later : Cursor} {token : Token} {rest : List Token} {fault : Fault}

theorem Cursor.ready_atStart (tokens : List Token) : (Cursor.atStart tokens).Ready :=
  { ordered := .nil
    reached := fun _ => nofun
    bearable := fun _ => nofun
    strays := .nil _ _
    next := fun _ _ _ _ => ⟨Nat.zero_le _, fun once => nomatch once⟩ }

theorem Cursor.Fresh.ready (fresh : cursor.Fresh) : cursor.Ready where
  toTidy := fresh.toTidy
  next := fun _ _ _ _ => by simp [fresh.blameless]

theorem Cursor.Finished.ready (finished : cursor.Finished) : cursor.Ready where
  toTidy := finished.toTidy
  next := by
    intro token rest split inside
    obtain ⟨other, others, split', isEnd⟩ := finished.next
    cases split.symm.trans split'
    exact absurd isEnd inside

/-- A cursor that has moved on without blaming a token is tidy if the token it stood at
is not blamed too often. -/
theorem Cursor.Tidy.advance (tidy : cursor.Tidy)
    (bearable : Bearable cursor.errors cursor.position) (further : cursor.position < later.position)
    {noted : List SyntaxError} (errors : later.errors = cursor.errors ++ noted)
    (within : StraysWithin cursor.position later.position noted) : later.Fresh := by
  have same : faults later.errors = faults cursor.errors := by
    rw [errors, faults_strays within]
  have reached : ∀ error ∈ faults later.errors, error.position ≤ cursor.position := by
    rw [same]
    exact tidy.reached
  refine ⟨⟨?_, ?_, ?_, ?_⟩, blameCount_eq_zero fun error member => ?_⟩
  · rw [same]
    exact tidy.ordered
  · exact fun error member => Nat.le_trans (reached error member) (Nat.le_of_lt further)
  · intro position before
    have sameCount : blameCount later.errors position = blameCount cursor.errors position := by
      rw [blameCount, blameCount, same]
    by_cases beyond : cursor.position < position
    · exact .of_le_one (by
        rw [blameCount_eq_zero fun error member => by have := reached error member; omega]
        exact Nat.zero_le _)
    · have behind : Bearable cursor.errors position := by
        rcases Nat.lt_or_eq_of_le (Nat.le_of_not_lt beyond) with before | rfl
        · exact tidy.bearable position before
        · exact bearable
      exact ⟨sameCount ▸ behind.twice, by rw [sameCount, same]; exact behind.noRule⟩
  · rw [errors, strays_strays within]
    exact tidy.strays.append within (Nat.zero_le _) (Nat.le_of_lt further)
  · have := reached error member
    omega

theorem Cursor.Tidy.after (tidy : cursor.Tidy)
    (bearable : Bearable cursor.errors cursor.position) (token : Token) (rest : List Token) :
    (cursor.after token rest).Fresh :=
  tidy.advance bearable (Nat.lt_succ_self _) (List.append_nil _).symm (.nil _ _)

theorem Cursor.Fresh.after (fresh : cursor.Fresh) (token : Token) (rest : List Token) :
    (cursor.after token rest).Fresh :=
  fresh.toTidy.after (.of_le_one (by simp [fresh.blameless])) token rest

theorem Cursor.Ready.after (ready : cursor.Ready) (split : cursor.ahead = token :: rest)
    (inside : token.kind ≠ .eof) : (cursor.after token rest).Fresh :=
  ready.toTidy.after (.of_le_one (ready.next token rest split inside).1) token rest

/-- A cursor that glides is calm as soon as it moves. -/
theorem Cursor.Ready.glides (ready : cursor.Ready) (glides : cursor.Glides later) :
    later = cursor ∨ later.Calm := by
  rcases glides.moves with stays | ⟨⟨token, rest, split, inside⟩, further, last⟩
  · exact Or.inl stays
  · obtain ⟨noted, errors, within⟩ := glides.notes
    have once := (ready.next token rest split inside).1
    exact Or.inr ⟨ready.toTidy.advance (.of_le_one once) further errors within, last⟩

theorem Cursor.blameCount_blaming (cursor : Cursor) (token : Token)
    (isFault : fault ≠ .assignmentTarget) :
    blameCount (cursor.blaming token fault).errors cursor.position =
      blameCount cursor.errors cursor.position + 1 := by
  rw [Cursor.blaming, blameCount_concat isFault]
  simp

/-- The errors stay in order when the next token is blamed. -/
theorem Cursor.Tidy.blaming (tidy : cursor.Tidy) (token : Token)
    (isFault : fault ≠ .assignmentTarget) : (cursor.blaming token fault).Tidy := by
  have same : faults (cursor.blaming token fault).errors =
      faults cursor.errors ++ [⟨cursor.position, token, fault⟩] :=
    faults_concat isFault
  refine ⟨?_, ?_, ?_, ?_⟩
  · rw [same, List.pairwise_append]
    refine ⟨tidy.ordered, List.pairwise_singleton _ _, fun error member last isLast => ?_⟩
    rw [List.mem_singleton.mp isLast]
    exact tidy.reached error member
  · rw [same]
    exact List.forall_mem_append.mpr ⟨tidy.reached, List.forall_mem_singleton.mpr (Nat.le_refl _)⟩
  · intro position before
    have behind := tidy.bearable position before
    have other : cursor.position ≠ position := Nat.ne_of_gt before
    have sameCount : blameCount (cursor.blaming token fault).errors position =
        blameCount cursor.errors position := by
      rw [Cursor.blaming, blameCount_concat isFault, if_neg other, Nat.add_zero]
    refine ⟨sameCount ▸ behind.twice, fun twice => ?_⟩
    obtain ⟨error, member, place⟩ := behind.noRule (sameCount ▸ twice)
    exact ⟨error, same ▸ List.mem_append_left _ member, place⟩
  · rw [Cursor.blaming, strays_concat isFault]
    exact tidy.strays

/-- Opening or closing a block leaves the errors as they are. -/
theorem Cursor.Tidy.openBlocks (tidy : cursor.Tidy) (count : Nat) :
    Cursor.Tidy { cursor with openBlocks := count } :=
  ⟨tidy.ordered, tidy.reached, tidy.bearable, tidy.strays⟩

end Cursors

end TreeWalker.Grammar
