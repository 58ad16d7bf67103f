import TreeWalker.Proofs.Evaluation.Restoration

/-!
# More rounds do not matter to a run that has ended

A loop that comes to its end within its rounds does the same if it is given more.
So does everything around it: whatever has ended, ends in the same way with any
larger number of rounds, and only what was out of rounds may go on.
-/

namespace TreeWalker.Evaluation

/-- With more rounds a computation ends as it did before, unless it was out of
rounds. -/
def Lasts {α : Type} (run more : Run α) : Prop :=
  ∀ machine, Standing machine →
    (∃ after, run machine = .error .unfinished after) ∨ more machine = run machine

namespace Lasts

variable {α β : Type} {run more : Run α} {next nextMore : α → Run β}

theorem refl (run : Run α) : Lasts run run :=
  fun _ _ => Or.inr rfl

theorem bind (restores : Restores run) (first : Lasts run more)
    (second : ∀ a, Lasts (next a) (nextMore a)) : Lasts (run >>= next) (more >>= nextMore) := by
  intro machine standing
  have ends := restores machine standing
  rw [bind_apply, bind_apply]
  rcases first machine standing with ⟨after, unfinished⟩ | same
  · rw [unfinished]
    exact Or.inl ⟨after, rfl⟩
  · rw [same]
    generalize run machine = result at ends
    cases ends with
    | value restored => exact second _ _ (restored.standing standing)
    | abort => exact Or.inr rfl

/-- A computation that goes on after one that has no loop. -/
theorem after (restores : Restores run) (second : ∀ a, Lasts (next a) (nextMore a)) :
    Lasts (run >>= next) (run >>= nextMore) :=
  bind restores (refl run) second

theorem inOwnScope {body bodyMore : Run Unit} (restores : Restores body)
    (inside : Lasts body bodyMore) : Lasts (inOwnScope body) (inOwnScope bodyMore) := by
  intro machine standing
  obtain ⟨arena, told, _, entered, enters⟩ := Restores.enterScope_standing standing
  have opened := entered.note [told]
  have deeper := opened.standing standing
  rw [Restores.inOwnScope_apply enters, Restores.inOwnScope_apply enters]
  rcases inside _ deeper with ⟨after, unfinished⟩ | same
  · have ends := restores _ deeper
    rw [unfinished] at ends
    cases ends with
    | abort restored =>
        rcases Restores.leaveScope_restored standing opened restored with ⟨left, leaves, _⟩
        refine Or.inl ⟨left, ?_⟩
        simp only [andFinally, unfinished, leaves]
  · exact Or.inr (by rw [andFinally, andFinally, same])

theorem whileTruthy {test : Run Value} {body bodyMore : Run Unit} (tests : Restores test)
    (restores : Restores body) (runs : Lasts body bodyMore) {rounds moreRounds : Nat}
    (enough : rounds ≤ moreRounds) :
    Lasts (whileTruthy test body rounds) (whileTruthy test bodyMore moreRounds) := by
  induction rounds generalizing moreRounds with
  | zero => exact fun machine _ => Or.inl ⟨machine, rfl⟩
  | succ rounds inductionHypothesis =>
      have positive : 1 ≤ moreRounds := Nat.le_trans (Nat.le_add_left 1 _) enough
      obtain ⟨moreRounds, rfl⟩ := Nat.exists_eq_add_of_le' positive
      refine after tests fun outcome => ?_
      split
      · exact bind restores runs fun _ => inductionHypothesis (Nat.le_of_succ_le_succ enough)
      · exact refl _

theorem inOrder {run more : Node → Run Unit} (restores : ∀ statement, Restores (run statement))
    (runs : ∀ statement, Lasts (run statement) (more statement)) (statements : List Node) :
    Lasts (inOrder run statements) (inOrder more statements) := by
  induction statements with
  | nil => exact refl _
  | cons statement statements inductionHypothesis =>
      exact bind (restores statement) (runs statement) fun _ => inductionHypothesis

theorem perform {rounds more : Nat} (enough : rounds ≤ more) (levels : Nat) (node : Node) :
    Lasts (perform rounds levels node) (perform more levels node) := by
  induction levels generalizing node with
  | zero => exact refl _
  | succ levels inductionHypothesis =>
      have restores := Restores.perform rounds levels
      cases node with
      | blockStmt body =>
          exact after (.trace _) fun _ =>
            inOwnScope (.inOrder restores body) (inOrder restores inductionHypothesis body)
      | ifStmt condition thenBranch elseBranch =>
          rw [perform_ifStmt, perform_ifStmt]
          refine after (.trace _) fun _ => after (.evaluate levels condition) fun outcome => ?_
          split
          · exact inductionHypothesis thenBranch
          · cases elseBranch with
            | absent => exact refl _
            | _ => exact inductionHypothesis _
      | whileStmt condition body =>
          exact after (.trace _) fun _ =>
            whileTruthy (.evaluate levels condition) (restores body) (inductionHypothesis body)
              enough
      | _ => exact refl _

theorem runProgram (limit : Nat) {rounds more : Nat} (enough : rounds ≤ more)
    (statements : List Node) :
    Lasts (runProgram limit rounds statements) (runProgram limit more statements) := by
  induction statements with
  | nil => exact refl _
  | cons statement statements inductionHypothesis =>
      intro machine standing
      have ends := Restores.perform rounds limit statement machine standing
      rw [runProgram_cons, runProgram_cons]
      rcases perform enough limit statement machine standing with ⟨after, unfinished⟩ | same
      · rw [unfinished]
        exact Or.inl ⟨after, rfl⟩
      · rw [same]
        generalize Evaluation.perform rounds limit statement machine = result at ends
        cases ends with
        | value restored => exact inductionHypothesis _ (restored.standing standing)
        | abort => exact Or.inr rfl

theorem session (limits : Limits) {rounds more : Nat} (enough : rounds ≤ more)
    (treatment : Treatment) (source : List Char) :
    Lasts (Session.run limits rounds treatment source)
      (Session.run limits more treatment source) := by
  refine after (.note _) fun _ => ?_
  split
  · exact bind (.runProgram limits.running rounds _) (runProgram limits.running enough _)
      fun _ => refl _
  · exact refl _

end Lasts

end TreeWalker.Evaluation
