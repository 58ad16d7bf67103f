import TreeWalker.Lexical.Segment

/-!
# Where a comment ends

Inside a block comment a text is read from left to right.  It may open another
comment, which has to be closed before anything else counts, or close the one it
is in; any other character is passed.  A pair of characters that opens or closes
a comment is read as a whole, so that pairs never overlap.

This says which text is left after the comment, without counting anything.  The
scanner counts the comments that are open, and finds the same end.
-/

namespace TreeWalker.Lexical

/-- `Closes text rest`: the text begins inside a comment, and `rest` is left of it
after the closing of that comment. -/
inductive Closes : List Char → List Char → Prop where
  | closing {rest : List Char} : Closes ('*' :: '/' :: rest) rest
  | nested {text middle rest : List Char} (inner : Closes text middle)
    (outer : Closes middle rest) : Closes ('/' :: '*' :: text) rest
  | character {c : Char} {text rest : List Char} (noOpening : ¬ ['/', '*'] <+: c :: text)
    (noClosing : ¬ ['*', '/'] <+: c :: text) (outer : Closes text rest) :
    Closes (c :: text) rest

/-- What is left after the closing of a comment and of so many comments around
it. -/
def ClosesAll : (around : Nat) → List Char → List Char → Prop
  | 0, text, rest => Closes text rest
  | around + 1, text, rest => ∃ middle, Closes text middle ∧ ClosesAll around middle rest

theorem commentLength?_character {c : Char} {text : List Char}
    (noOpening : ¬ ['/', '*'] <+: c :: text) (noClosing : ¬ ['*', '/'] <+: c :: text)
    (inner read : Nat) :
    commentLength? inner read (c :: text) = commentLength? inner (read + 1) text := by
  rw [commentLength?]
  · rintro text rfl rfl
    exact noOpening ⟨text, rfl⟩
  · rintro text rfl rfl
    exact noClosing ⟨text, rfl⟩

/-- The count goes on after a comment inside as if that had not been there. -/
theorem Closes.commentLength? {text rest : List Char} (closes : Closes text rest) :
    ∃ body, text = body ++ rest ∧
      (∀ read, commentLength? 0 read text = some (read + body.length)) ∧
      ∀ inner read, commentLength? (inner + 1) read text =
        commentLength? inner (read + body.length) rest := by
  induction closes with
  | closing => exact ⟨['*', '/'], rfl, fun _ => rfl, fun _ _ => rfl⟩
  | nested _ _ innerHypothesis outerHypothesis =>
      obtain ⟨body, rfl, _, innerMore⟩ := innerHypothesis
      rcases outerHypothesis with ⟨body', rfl, outerLast, outerMore⟩
      refine ⟨'/' :: '*' :: (body ++ body'), by simp, fun read => ?_, fun inner read => ?_⟩
      · rw [Lexical.commentLength?, innerMore, outerLast]
        simp only [List.length_cons, List.length_append, Option.some.injEq]
        omega
      · rw [Lexical.commentLength?, innerMore, outerMore]
        congr 1
        simp only [List.length_cons, List.length_append]
        omega
  | @character c _ _ noOpening noClosing _ inductionHypothesis =>
      obtain ⟨body, rfl, last, more⟩ := inductionHypothesis
      refine ⟨c :: body, rfl, fun read => ?_, fun inner read => ?_⟩
      · rw [commentLength?_character noOpening noClosing, last, List.length_cons]
        congr 1
        omega
      · rw [commentLength?_character noOpening noClosing, more, List.length_cons]
        congr 1
        omega

theorem ClosesAll.nested {around : Nat} {text rest : List Char}
    (closes : ClosesAll (around + 1) text rest) : ClosesAll around ('/' :: '*' :: text) rest := by
  rcases closes with ⟨middle, inner, outer⟩
  cases around with
  | zero => exact Closes.nested inner outer
  | succ around =>
      rcases outer with ⟨later, middleCloses, others⟩
      exact ⟨later, .nested inner middleCloses, others⟩

theorem ClosesAll.character {around : Nat} {c : Char} {text rest : List Char}
    (noOpening : ¬ ['/', '*'] <+: c :: text) (noClosing : ¬ ['*', '/'] <+: c :: text)
    (closes : ClosesAll around text rest) : ClosesAll around (c :: text) rest := by
  cases around with
  | zero => exact Closes.character noOpening noClosing closes
  | succ around =>
      rcases closes with ⟨middle, first, others⟩
      exact ⟨middle, .character noOpening noClosing first, others⟩

/-- Where a length is counted, all comments that are open are closed. -/
theorem exists_closesAll {text : List Char} {inner read count : Nat}
    (counted : commentLength? inner read text = some count) :
    ∃ rest, ClosesAll inner text rest := by
  fun_induction Lexical.commentLength? inner read text with
  | case1 => cases counted
  | case2 inner read text inductionHypothesis =>
      rcases inductionHypothesis counted with ⟨rest, closes⟩
      exact ⟨rest, closes.nested⟩
  | case3 read text => exact ⟨text, .closing⟩
  | case4 read text inner inductionHypothesis =>
      rcases inductionHypothesis counted with ⟨rest, closes⟩
      exact ⟨rest, text, .closing, closes⟩
  | case5 inner read c text noOpening noClosing inductionHypothesis =>
      rcases inductionHypothesis counted with ⟨rest, closes⟩
      refine ⟨rest, closes.character ?_ ?_⟩
      · rintro ⟨tail, same⟩
        obtain ⟨rfl, rfl⟩ := List.cons.inj same
        exact noOpening tail rfl rfl
      · rintro ⟨tail, same⟩
        rcases List.cons.inj same with ⟨rfl, rfl⟩
        exact noClosing tail rfl rfl

/-- The length of a comment is counted just if the text closes it, and it leads up
to where it is closed. -/
theorem commentLength?_eq_some_iff {text : List Char} {count : Nat} :
    commentLength? 0 0 text = some count ↔
      ∃ body rest, text = body ++ rest ∧ Closes text rest ∧ count = body.length := by
  constructor
  · intro counted
    rcases exists_closesAll counted with ⟨rest, closes⟩
    rcases Closes.commentLength? closes with ⟨body, split, last, _⟩
    rw [last, Nat.zero_add] at counted
    exact ⟨body, rest, split, closes, (Option.some.inj counted).symm⟩
  · rintro ⟨body, rest, rfl, closes, rfl⟩
    rcases closes.commentLength? with ⟨body', split, last, _⟩
    rw [last, Nat.zero_add, List.append_cancel_right split]

theorem commentLength?_eq_none_iff {text : List Char} :
    commentLength? 0 0 text = none ↔ ∀ rest, ¬ Closes text rest := by
  constructor
  · intro uncounted rest closes
    rcases closes.commentLength? with ⟨_, _, last, _⟩
    rw [last] at uncounted
    cases uncounted
  · intro unclosed
    cases counted : commentLength? 0 0 text with
    | none => rfl
    | some count =>
        rcases exists_closesAll counted with ⟨rest, closes⟩
        exact absurd closes (unclosed rest)

end TreeWalker.Lexical
