import TreeWalker.Proofs.Grammar.Correctness
import TreeWalker.Proofs.Grammar.Totality

/-!
# How many tokens a program has

The tokens of a program that is parsed without a report are counted by its
statements, whatever values its literals carry.  So of two parts of a token list
that go to its end, only one can come to given statements.
-/

namespace TreeWalker.Grammar

/-! ## Lengths of spellings -/

/-- How long the spelling of the tree of a phrase is. -/
def Measures : Category → Node → List Token → Prop
  | .operation tiers, node, word => tiers <:+ Level.all → node.spelling.length = word.length
  | .parenthesized, node, word => node.spelling.length + 2 = word.length
  | _, node, word => node.spelling.length = word.length

theorem Phrase.measures {category : Category} {node : Node} {word strays : List Token}
    (phrase : Phrase category node word strays) (clean : strays = []) :
    Measures category node word := by
  induction phrase with
  | literal => rfl
  | reference => rfl
  | grouping _ inductionHypothesis =>
      have inner := inductionHypothesis clean
      simp only [Measures, Node.spelling, List.length_cons, List.length_append] at inner ⊢
      omega
  | unary _ _ inductionHypothesis =>
      have inner := inductionHypothesis clean
      simp only [Measures, Node.spelling, List.length_cons] at inner ⊢
      omega
  | tightest _ inductionHypothesis =>
      intro _
      exact inductionHypothesis clean
  | tighter _ inductionHypothesis =>
      intro suffix
      exact inductionHypothesis clean ((List.suffix_cons _ _).trans suffix)
  | apply _ isOperator _ leftHypothesis rightHypothesis =>
      intro suffix
      obtain ⟨leftClean, rightClean⟩ := List.append_eq_nil_iff.mp clean
      have left := leftHypothesis leftClean suffix
      have right := rightHypothesis rightClean ((List.suffix_cons _ _).trans suffix)
      rcases strength_of_accepts suffix isOperator with ⟨same, _⟩ | ⟨same, _⟩ <;>
        simp only [same, Node.spelling, List.length_append, List.length_cons, left, right]
  | plain _ inductionHypothesis => exact inductionHypothesis clean (List.suffix_refl _)
  | @assign target value _ _ _ _ _ _ _ _ targetHypothesis valueHypothesis =>
      rcases List.append_eq_nil_iff.mp clean with ⟨targetClean, others⟩
      obtain ⟨valueClean, noStray⟩ := List.append_eq_nil_iff.mp others
      have targetLength := targetHypothesis targetClean (List.suffix_refl _)
      have valueLength := valueHypothesis valueClean
      cases target
      case reference name =>
        simp only [Measures, assigned, Node.spelling, List.length_append, List.length_cons,
          List.length_nil] at targetLength valueLength ⊢
        omega
      all_goals cases noStray
  | parenthesized _ _ _ inductionHypothesis =>
      have inner := inductionHypothesis clean
      simp only [Measures, List.length_cons, List.length_append, List.length_nil] at inner ⊢
      omega

/-- How long the spelling of the tree of a clause is. -/
def ClauseMeasures : Part → Node → List Token → Prop
  | .body, node, word => ∀ nodes, node = .blockStmt nodes →
    (Node.spellingOfAll nodes).length = word.length
  | _, node, word => node.spelling.length = word.length

theorem Clause.measures {part : Part} {node : Node} {word strays : List Token}
    (clause : Clause part node word strays) (clean : strays = []) :
    ClauseMeasures part node word := by
  induction clause with
  | expression phrase _ =>
      have expr := phrase.measures clean
      simp only [Measures, ClauseMeasures, Node.spelling, List.length_append] at expr ⊢
      rw [expr]
      rfl
  | print _ phrase _ =>
      have expr := phrase.measures clean
      simp only [Measures, ClauseMeasures, Node.spelling, List.length_append, List.length_cons]
        at expr ⊢
      rw [expr]
      rfl
  | ifThen _ phrase _ thenHypothesis =>
      rcases List.append_eq_nil_iff.mp clean with ⟨conditionClean, thenClean⟩
      have condition := phrase.measures conditionClean
      have thenBranch := thenHypothesis thenClean
      simp only [Measures, ClauseMeasures, Node.spelling, List.length_append, List.length_cons]
        at condition thenBranch ⊢
      omega
  | ifElse _ phrase _ _ _ elseClause thenHypothesis elseHypothesis =>
      rcases List.append_eq_nil_iff.mp clean with ⟨conditionClean, others⟩
      rcases List.append_eq_nil_iff.mp others with ⟨thenClean, elseClean⟩
      have condition := phrase.measures conditionClean
      have thenBranch := thenHypothesis thenClean
      have elseBranch := elseHypothesis elseClean
      simp only [Measures, ClauseMeasures, spelling_ifElse elseClause.ne_absent,
        List.length_append, List.length_cons] at condition thenBranch elseBranch ⊢
      omega
  | whileDo _ phrase _ bodyHypothesis =>
      rcases List.append_eq_nil_iff.mp clean with ⟨conditionClean, bodyClean⟩
      have condition := phrase.measures conditionClean
      have body := bodyHypothesis bodyClean
      simp only [Measures, ClauseMeasures, Node.spelling, List.length_append, List.length_cons]
        at condition body ⊢
      omega
  | block _ _ _ bodyHypothesis =>
      have body := bodyHypothesis clean _ rfl
      simp only [ClauseMeasures, Node.spelling, List.length_append, List.length_cons, body]
      rfl
  | statement _ inductionHypothesis => exact inductionHypothesis clean
  | var => rfl
  | varInit _ _ _ phrase _ =>
      have present := ne_absent_of_isExpression (phrase.reads clean).canonical
      have initializer := phrase.measures clean
      simp only [Measures, ClauseMeasures, spelling_varInit present, List.length_append,
        List.length_cons] at initializer ⊢
      rw [initializer]
      rfl
  | empty =>
      rintro nodes ⟨⟩
      rfl
  | item _ _ itemHypothesis restHypothesis =>
      rcases List.append_eq_nil_iff.mp clean with ⟨itemClean, restClean⟩
      have item := itemHypothesis itemClean
      have rest := restHypothesis restClean _ rfl
      rintro nodes ⟨⟩
      simp only [ClauseMeasures, Node.spellingOfAll, List.length_append] at item rest ⊢
      omega

/-- The same statements have bodies of the same length. -/
theorem Body.length_eq {nodes : List Node} {word more : List Token} (body : Body nodes word [])
    (bodyMore : Body nodes more []) : word.length = more.length :=
  (Clause.measures body rfl nodes rfl).symm.trans (Clause.measures bodyMore rfl nodes rfl)

/-! ## Sources -/

/-- What is parsed without a report under some limit is a body. -/
theorem IsSource.body {levels : Nat} {body : List Token} {eof : Token} {nodes : List Node}
    (source : IsSource body eof)
    (parsed : parseWith (program levels) [] (body ++ [eof]) = ⟨nodes, []⟩) :
    Body nodes body [] := by
  have ended : Ended (body ++ [eof]) := (ended_singleton source.isEnd).append_left body
  obtain ⟨statements, after, run⟩ := succeeds_program levels (Cursor.atStart (body ++ [eof])) ended
  rw [parseWith, run] at parsed
  obtain ⟨rfl, quiet⟩ := Parsed.mk.inj parsed
  have noErrors : after.errors = [] := List.map_eq_nil_iff.mp quiet
  have unnoted {error : SyntaxError}
      (first : (Cursor.atStart (body ++ [eof])).FirstNote after error) : False := by
    have found := firstNote_atStart first
    rw [noErrors] at found
    cases found
  cases decides_program levels (body ++ [eof]) ended with
  | @takes _ _ _ next _ split member stops restEnded takes =>
      have isEnd : next.kind = .eof := by simpa [bodyGoesOn, endsSource] using stops
      rcases source.eq_of_split split isEnd with ⟨rfl, rfl, rfl⟩
      rcases takes [] restEnded (Cursor.atStart _) rfl with ⟨_, taken, past⟩
      rw [run] at taken
      cases taken
      rcases past.errors with ⟨errors, noted, reports⟩
      rw [noErrors] at noted
      have nothing : errors = [] := noted.symm
      subst nothing
      have noStrays := List.map_eq_nil_iff.mp (Eq.symm reports)
      rwa [noStrays] at member
  | blames split _ _ blames =>
      have first := blames _ (source.ended split) (Cursor.atStart _) split
      rw [run] at first
      exact (unnoted first).elim
  | givesUp givesUp =>
      rcases givesUp (Cursor.atStart _) rfl with ⟨_, _, stopped, _⟩ | ⟨error, _, first⟩
      · rw [run] at stopped
        cases stopped
      · rw [run] at first
        exact (unnoted first).elim

/-- What is left of a source, with its end, is a source. -/
theorem IsSource.of_suffix {body left : List Token} {eof : Token} (source : IsSource body eof)
    (suffix : left <:+ body ++ [eof]) (ended : Ended left) :
    ∃ rest, left = rest ++ [eof] ∧ IsSource rest eof := by
  obtain ⟨skipped, split⟩ := suffix
  obtain ⟨last, member, isEnd⟩ := ended
  rcases List.append_of_mem member with ⟨rest, others, rfl⟩
  rw [← List.append_assoc] at split
  rcases source.eq_of_split split.symm isEnd with ⟨rfl, rfl, rfl⟩
  exact ⟨rest, rfl, fun token member => source.inside token (List.mem_append_right _ member), isEnd⟩

/-- Two parts of a token list, up to its end, that come to the same statements
without a report are the same. -/
theorem eq_of_parsed {levels : Nat} {nodes : List Node} {tokens rest more : List Token}
    {eof : Token} (sourceRest : IsSource rest eof) (sourceMore : IsSource more eof)
    (suffix : rest ++ [eof] <:+ tokens) (suffixMore : more ++ [eof] <:+ tokens)
    (parsed : parseWith (program levels) [] (rest ++ [eof]) = ⟨nodes, []⟩)
    (parsedMore : parseWith (program levels) [] (more ++ [eof]) = ⟨nodes, []⟩) :
    rest ++ [eof] = more ++ [eof] := by
  have same := (sourceRest.body parsed).length_eq (sourceMore.body parsedMore)
  obtain ⟨skipped, split⟩ := suffix
  obtain ⟨skipped', split'⟩ := suffixMore
  exact List.append_inj_right' (split.trans split'.symm) (by simp [same])

end TreeWalker.Grammar
