import TreeWalker.Proofs.Grammar.Outcome

/-!
# Taking a word or giving up

Where a word is known to be one of the language, a parser takes it, unless the
nesting is deeper than it is allowed to be; then the parser gives up.  Which of
the two happens depends on a condition, that the word fits into the levels
allowed.
-/

namespace TreeWalker.Grammar

variable {α β : Type}

/-- A parser takes a word if the word fits, and gives up otherwise. -/
structure Settles (fits : Prop) (parser : Parser α) (a : α) (word strays rest : List Token) :
    Prop where
  takes : fits → Takes parser a word strays rest
  givesUp : ¬ fits → GivesUp parser (word ++ rest)

namespace Settles

variable {fits fits' : Prop} {parser : Parser α} {next : α → Parser β} {a : α} {b : β}
  {word word' strays strays' rest : List Token}

/-- A parser that takes a word settles, since every word fits. -/
theorem of_takes (takes : Takes parser a word strays rest) :
    Settles True parser a word strays rest :=
  ⟨fun _ => takes, fun never => absurd trivial never⟩

theorem overNested : Settles False (throw .overNested : Parser α) a word strays rest :=
  ⟨False.elim, fun _ => .overNested _⟩

theorem congr (settles : Settles fits parser a word strays rest) (same : fits ↔ fits') :
    Settles fits' parser a word strays rest :=
  ⟨fun fitting => settles.takes (same.mpr fitting),
    fun tooDeep => settles.givesUp fun fitting => tooDeep (same.mp fitting)⟩

/-- A word fits into a sequence of two parsers if its two parts do. -/
theorem bind (first : Settles fits parser a word strays (word' ++ rest))
    (orderly : ∀ a, Orderly (next a)) (second : Settles fits' (next a) b word' strays' rest) :
    Settles (fits ∧ fits') (parser >>= next) b (word ++ word') (strays ++ strays') rest := by
  constructor
  · rintro ⟨fitting, fitting'⟩
    exact (first.takes fitting).bind (second.takes fitting')
  · intro tooDeep
    rw [List.append_assoc]
    by_cases fitting : fits
    · have tooDeep' : ¬ fits' := fun fitting' => tooDeep ⟨fitting, fitting'⟩
      exact GivesUp.after (first.takes fitting) (second.givesUp tooDeep')
    · exact (first.givesUp fitting).bind orderly

/-- A parser after one that takes its word in any case. -/
theorem after (first : Takes parser a word strays (word' ++ rest))
    (second : Settles fits (next a) b word' strays' rest) :
    Settles fits (parser >>= next) b (word ++ word') (strays ++ strays') rest := by
  constructor
  · intro fitting
    exact first.bind (second.takes fitting)
  · intro tooDeep
    rw [List.append_assoc]
    exact GivesUp.after first (second.givesUp tooDeep)

/-- A parser before one that takes its word in any case. -/
theorem before (first : Settles fits parser a word strays (word' ++ rest))
    (orderly : ∀ a, Orderly (next a)) (second : Takes (next a) b word' strays' rest) :
    Settles fits (parser >>= next) b (word ++ word') (strays ++ strays') rest :=
  (first.bind orderly (of_takes second)).congr ⟨And.left, fun fitting => ⟨fitting, trivial⟩⟩

/-- A parser whose result is put into a larger one. -/
theorem map (settles : Settles fits parser a word strays rest) (value : α → β) :
    Settles fits (parser >>= fun a => Pure.pure (value a)) (value a) word strays rest := by
  rw [← List.append_nil word, ← List.append_nil strays]
  exact before settles (fun a => Orderly.pure (value a)) (Takes.pure (value a) rest)

/-- A parser that takes a token and then behaves as another one. -/
theorem pass {other : Parser α} {token : Token} (settles : Settles fits other a word strays rest)
    (step : ∀ cursor : Cursor, cursor.ahead = token :: (word ++ rest) →
      parser cursor = other (cursor.after token (word ++ rest))) :
    Settles fits parser a (token :: word) strays rest :=
  ⟨fun fitting => (settles.takes fitting).pass step,
    fun tooDeep => (settles.givesUp tooDeep).pass step⟩

/-- A parser that looks at the tokens ahead and then behaves as another one. -/
theorem look {other : Parser α} (settles : Settles fits other a word strays rest)
    (step : ∀ cursor : Cursor, cursor.ahead = word ++ rest → parser cursor = other cursor) :
    Settles fits parser a word strays rest := by
  constructor
  · intro fitting cursor split
    rw [step cursor split]
    exact settles.takes fitting cursor split
  · intro tooDeep cursor split
    rw [step cursor split]
    exact settles.givesUp tooDeep cursor split

/-- The depth of nesting of a word does not depend on the levels allowed. -/
theorem succ {parser : Nat → Parser α} {depth : Nat}
    (limit : parser 0 = throw .overNested)
    (settles : ∀ levels, Settles (depth ≤ levels) (parser (levels + 1)) a word strays rest)
    (levels : Nat) : Settles (depth + 1 ≤ levels) (parser levels) a word strays rest := by
  cases levels with
  | zero =>
      rw [limit]
      exact overNested.congr (by simp)
  | succ levels => exact (settles levels).congr (by simp)

end Settles

end TreeWalker.Grammar
