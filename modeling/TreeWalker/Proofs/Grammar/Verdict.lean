import TreeWalker.Proofs.Grammar.Outcome

/-!
# Verdicts on a token list

The verdict on a token list says which of its ends a parser comes to there, and
ties that end to a language.  A word that is taken belongs to the language, and
it was taken as far as the parser would go.  A token that is blamed follows a
word that could have been completed to one of the language.

Verdicts on a sequence of parsers are put together from verdicts on its members.
The language of a later member is what is left of the whole language after the
words taken so far.
-/

namespace TreeWalker.Grammar

variable {α β : Type}

/-- Results with their words and the stray tokens in these. -/
abbrev Language (α : Type) :=
  α → List Token → List Token → Prop

namespace Language

/-- The word is the beginning of a word of the language. -/
def Viable (language : Language α) (word : List Token) : Prop :=
  ∃ a rest strays, language a (word ++ rest) strays

/-- What is left of a language after a word. -/
def after (language : Language α) (word strays : List Token) : Language α :=
  fun a rest strays' => language a (word ++ rest) (strays ++ strays')

variable {language : Language α}

theorem after_after (word word' strays strays' : List Token) :
    (language.after word strays).after word' strays' =
      language.after (word ++ word') (strays ++ strays') := by
  funext a rest strays''
  simp only [after, List.append_assoc]

theorem Viable.of_after {word word' strays : List Token}
    (viable : (language.after word strays).Viable word') : language.Viable (word ++ word') := by
  rcases viable with ⟨a, rest, strays', member⟩
  refine ⟨a, rest, strays ++ strays', ?_⟩
  rw [List.append_assoc]
  exact member

theorem Viable.of_append {word word' : List Token} (viable : language.Viable (word ++ word')) :
    language.Viable word := by
  rcases viable with ⟨a, rest, strays, member⟩
  exact ⟨a, word' ++ rest, strays, by rwa [← List.append_assoc]⟩

theorem Viable.of_member {a : α} {word strays : List Token} (member : language a word strays) :
    language.Viable word :=
  ⟨a, [], strays, by rwa [List.append_nil]⟩

end Language

/-- What a parser comes to on a token list. -/
inductive Verdict (parser : Parser α) (language : Language α) (goesOn : α → TokenKind → Prop)
    (ahead : List Token) : Prop where
  | takes {a : α} {word strays : List Token} {next : Token} {rest : List Token}
    (split : ahead = word ++ next :: rest) (member : language a word strays)
    (stops : ¬ goesOn a next.kind) (ended : Ended (next :: rest))
    (takes : ∀ rest', Ended (next :: rest') → Takes parser a word strays (next :: rest'))
  | blames {word : List Token} {token : Token} {rest : List Token} {fault : Fault}
    (split : ahead = word ++ token :: rest) (viable : language.Viable word)
    (notNested : fault ≠ .nesting)
    (blames : ∀ rest', Ended (token :: rest') → Blames parser word token fault rest')
  | givesUp (givesUp : GivesUp parser ahead)

/-- A list that begins with a word and a token begins with the same token when
something else follows the word and the token. -/
theorem exists_same_head {next token : Token} {rest word rest' : List Token}
    (split : next :: rest = word ++ token :: rest') (other : List Token) :
    ∃ tail, word ++ token :: other = next :: tail := by
  cases word with
  | nil =>
      rcases List.cons.inj split with ⟨rfl, _⟩
      exact ⟨other, rfl⟩
  | cons first word =>
      obtain ⟨rfl, _⟩ := List.cons.inj split
      exact ⟨word ++ token :: other, rfl⟩

namespace Verdict

variable {parser : Parser α} {language : Language α} {goesOn : α → TokenKind → Prop}
  {ahead : List Token} {token : Token} {rest : List Token}

theorem mono {whole : Language α} {goesOn' : α → TokenKind → Prop}
    (verdict : Verdict parser language goesOn ahead)
    (members : ∀ a word strays, language a word strays → whole a word strays)
    (stops : ∀ a kind, ¬ goesOn a kind → ¬ goesOn' a kind) :
    Verdict parser whole goesOn' ahead := by
  cases verdict with
  | takes split member stopped ended takes =>
      exact .takes split (members _ _ _ member) (stops _ _ stopped) ended takes
  | blames split viable notNested blames =>
      rcases viable with ⟨a, rest, strays, member⟩
      exact .blames split ⟨a, rest, strays, members _ _ _ member⟩ notNested blames
  | givesUp givesUp => exact .givesUp givesUp

theorem pure {a : α} (member : language a [] []) (stops : ¬ goesOn a token.kind)
    (ended : Ended (token :: rest)) :
    Verdict (Pure.pure a) language goesOn (token :: rest) :=
  .takes (List.nil_append _).symm member stops ended fun _ _ => Takes.pure a _

theorem overNested : Verdict (throw .overNested : Parser α) language goesOn ahead :=
  .givesUp fun cursor _ => Or.inl ⟨cursor, [], rfl, by simp, rfl⟩

theorem reject {fault : Fault} (viable : language.Viable []) (isSyntax : fault ≠ .assignmentTarget)
    (notNested : fault ≠ .nesting) :
    Verdict (Grammar.reject fault) language goesOn (token :: rest) := by
  refine .blames (List.nil_append _).symm viable notNested fun rest' _ cursor split => ?_
  rw [reject_apply split]
  refine ⟨[⟨cursor.position, token, fault⟩], rfl, ?_⟩
  simp [firstFault, isSyntax]

/-- A parser that looks at the next token and then behaves as another one. -/
theorem look {other : Parser α} (verdict : Verdict other language goesOn (token :: rest))
    (step : ∀ (cursor : Cursor) rest', cursor.ahead = token :: rest' → Ended (token :: rest') →
      parser cursor = other cursor) (ended : Ended (token :: rest)) :
    Verdict parser language goesOn (token :: rest) := by
  cases verdict with
  | takes split member stops afterEnded takes =>
      refine .takes split member stops afterEnded fun rest' ended' cursor ahead => ?_
      rcases exists_same_head split rest' with ⟨tail, same⟩
      have whole : Ended (token :: tail) := same ▸ ended'.append_left _
      rw [step cursor tail (ahead.trans same) whole]
      exact takes rest' ended' cursor ahead
  | blames split viable notNested blames =>
      refine .blames split viable notNested fun rest' ended' cursor ahead => ?_
      rcases exists_same_head split rest' with ⟨tail, same⟩
      have whole : Ended (token :: tail) := same ▸ ended'.append_left _
      rw [step cursor tail (ahead.trans same) whole]
      exact blames rest' ended' cursor ahead
  | givesUp givesUp =>
      refine .givesUp fun cursor ahead => ?_
      rw [step cursor rest ahead ended]
      exact givesUp cursor ahead

/-- A parser that takes the next token and then behaves as another one. -/
theorem pass {other : Parser α}
    (verdict : Verdict other (language.after [token] []) goesOn rest)
    (step : ∀ (cursor : Cursor) rest', cursor.ahead = token :: rest' → Ended rest' →
      parser cursor = other (cursor.after token rest')) (ended : Ended rest) :
    Verdict parser language goesOn (token :: rest) := by
  cases verdict with
  | takes split member stops afterEnded takes =>
      exact .takes (by rw [split]; rfl) member stops afterEnded fun rest' ended' =>
        (takes rest' ended').pass fun cursor ahead => step cursor _ ahead (ended'.append_left _)
  | blames split viable notNested blames =>
      refine .blames (by rw [split]; rfl) viable.of_after notNested
        fun rest' ended' cursor ahead => ?_
      rw [step cursor _ ahead (ended'.append_left _)]
      have note := blames rest' ended' (cursor.after token _) rfl
      have place : (cursor.after token rest).position = cursor.position + 1 := rfl
      rw [(cursor.past_after token _).position, Nat.add_assoc, ← List.length_append] at note
      exact note.of_past (cursor.past_after token _)
  | givesUp givesUp =>
      exact .givesUp (givesUp.pass fun cursor ahead => step cursor rest ahead ended)

/-- A parser followed by another one.  Any word of the first is the beginning of
a word of the whole. -/
theorem bind {next : α → Parser β} {whole : Language β} {goesOn' : β → TokenKind → Prop}
    (verdict : Verdict parser language goesOn ahead)
    (completes : ∀ a word strays, language a word strays → whole.Viable word)
    (orderly : ∀ a, Orderly (next a))
    (continuation : ∀ a word strays token rest, ahead = word ++ token :: rest →
      language a word strays → ¬ goesOn a token.kind → Ended (token :: rest) →
      Verdict (next a) (whole.after word strays) goesOn' (token :: rest)) :
    Verdict (parser >>= next) whole goesOn' ahead := by
  cases verdict with
  | blames split viable notNested blames =>
      obtain ⟨a, rest, strays, member⟩ := viable
      exact .blames split (completes a _ strays member).of_append notNested
        fun rest' ended => (blames rest' ended).bind orderly
  | givesUp givesUp => exact .givesUp (givesUp.bind orderly)
  | @takes a word strays token rest split member stops ended takes =>
      cases continuation a word strays token rest split member stops ended with
      | @takes b word' strays' token' tail split' member' stops' ended' takes' =>
          have whole : ahead = (word ++ word') ++ token' :: tail := by
            rw [split, split', List.append_assoc]
          refine .takes whole member' stops' ended' fun rest' restEnded => ?_
          rcases exists_same_head split' rest' with ⟨tail, same⟩
          have first : Takes parser a word strays (word' ++ token' :: rest') := by
            rw [same]
            exact takes tail (same ▸ restEnded.append_left _)
          exact first.bind (takes' rest' restEnded)
      | @blames word' token' tail fault split' viable' notNested' blames' =>
          have whole : ahead = (word ++ word') ++ token' :: tail := by
            rw [split, split', List.append_assoc]
          refine .blames whole viable'.of_after notNested' fun rest' restEnded => ?_
          rcases exists_same_head split' rest' with ⟨tail, same⟩
          have first : Takes parser a word strays (word' ++ token' :: rest') := by
            rw [same]
            exact takes tail (same ▸ restEnded.append_left _)
          exact Blames.after first (blames' rest' restEnded)
      | givesUp givesUp' =>
          rw [split]
          exact .givesUp (GivesUp.after (takes rest ended) givesUp')

/-- A parser that goes one of two ways, depending on whether the next token is
accepted. -/
theorem accept {accepts : TokenKind → Bool} {next : Option Token → Parser α}
    (sourceEnd : accepts .eof = false) (ended : Ended ahead)
    (found : ∀ token rest, ahead = token :: rest → accepts token.kind = true → Ended rest →
      Verdict (next (some token)) (language.after [token] []) goesOn rest)
    (missing : ∀ token rest, ahead = token :: rest → accepts token.kind = false →
      Verdict (next none) language goesOn (token :: rest)) :
    Verdict (accept? accepts >>= next) language goesOn ahead := by
  rcases ended.exists_cons with ⟨token, rest, rfl⟩
  cases accepted : accepts token.kind with
  | true =>
      have restEnded : Ended rest :=
        ended.tail fun isEnd => by simp [isEnd, sourceEnd] at accepted
      refine (found token rest rfl accepted restEnded).pass (fun cursor rest' split _ => ?_)
        restEnded
      rw [bind_apply_ok (accept?_apply_some split accepted)]
  | false =>
      refine (missing token rest rfl accepted).look (fun cursor rest' split _ => ?_) ended
      rw [bind_apply_ok (accept?_apply_none split accepted)]

/-- A parser that requires a token of a kind.  Up to there the word could have
been completed. -/
theorem expect {kind : TokenKind} {fault : Fault} {next : Token → Parser α}
    (inside : kind ≠ .eof) (isSyntax : fault ≠ .assignmentTarget) (notNested : fault ≠ .nesting)
    (viable : language.Viable []) (ended : Ended ahead)
    (continuation : ∀ token rest, ahead = token :: rest → token.kind = kind → Ended rest →
      Verdict (next token) (language.after [token] []) goesOn rest) :
    Verdict (Grammar.expect kind fault >>= next) language goesOn ahead := by
  obtain ⟨token, rest, rfl⟩ := ended.exists_cons
  by_cases same : token.kind = kind
  · have restEnded : Ended rest := ended.tail (same ▸ inside)
    refine (continuation token rest rfl same restEnded).pass (fun cursor rest' split _ => ?_)
      restEnded
    rw [bind_apply_ok (expect_apply split same fault)]
  · refine (reject viable isSyntax notNested).look (fun cursor rest' split _ => ?_) ended
    rw [bind_apply_error (expect_apply_ne split same fault), reject_apply split]

/-- A parser whose result is adapted by another one, which takes no token but may
note a stray one and may look at where the cursor was. -/
theorem adapt {next : Cursor → α → Parser β} {run : Parser β} {whole : Language β}
    {goesOn' : β → TokenKind → Prop} {value : α → β} {strays : α → List Token}
    (same : ∀ cursor, run cursor = (parser >>= next cursor) cursor)
    (orderly : ∀ cursor a, Orderly (next cursor a))
    (takes : ∀ cursor a rest, Takes (next cursor a) (value a) [] (strays a) rest)
    (member : ∀ a word strays', language a word strays' →
      whole (value a) word (strays' ++ strays a))
    (stops : ∀ a kind, ¬ goesOn a kind → ¬ goesOn' (value a) kind)
    (verdict : Verdict parser language goesOn ahead) : Verdict run whole goesOn' ahead := by
  cases verdict with
  | @takes a word strays' token rest split isMember stopped ended taken =>
      refine .takes split (member a word strays' isMember) (stops a _ stopped) ended
        fun rest' restEnded cursor cursorSplit => ?_
      rw [same]
      have both := (taken rest' restEnded).bind (takes cursor a (token :: rest'))
      rw [List.append_nil] at both
      exact both cursor cursorSplit
  | blames split viable notNested blames =>
      rcases viable with ⟨a, rest, strays', isMember⟩
      refine .blames split ⟨value a, rest, _, member a _ strays' isMember⟩ notNested
        fun rest' ended cursor cursorSplit => ?_
      rw [same]
      exact (blames rest' ended).bind (orderly cursor) cursor cursorSplit
  | givesUp givesUp =>
      refine .givesUp fun cursor split => ?_
      rw [same]
      exact givesUp.bind (orderly cursor) cursor split

end Verdict

end TreeWalker.Grammar
