import TreeWalker.Proofs.Evaluation.Refinement

/-!
# How the statements of a program end

The statements of a program run one after the other.  Either all of them come to
their ends, or one is aborted by a problem that is told, and those after it do
not run.  Statements of a clean program on a machine between two programs are
aborted in no other way, unless a loop was out of rounds.
-/

namespace TreeWalker.Evaluation

variable {limit : Nat}

/-- The diagnostic by which the abort of a statement is told. -/
inductive Abort.ToldAs (statement : Node) : Abort → Diagnostic → Prop where
  | fault {line : Int} {fault : Fault} :
    ToldAs statement (.fault line fault) ⟨.runtime, line, "", fault.message⟩
  | overNested :
    ToldAs statement .overNested ⟨.runtime, statement.leadingLine 1, "", nestingMessage⟩

/-- Some statements ran to their ends, the next one was aborted by a problem, and
the machine is as it was at that moment. -/
inductive StopsWith (limit rounds : Nat) : List Node → Machine → Diagnostic → Machine → Prop where
  | here {statement : Node} {statements : List Node} {machine after : Machine} {abort : Abort}
    {problem : Diagnostic}
    (aborts : perform rounds limit statement machine = .error abort after)
    (told : abort.ToldAs statement problem) :
    StopsWith limit rounds (statement :: statements) machine problem after
  | later {statement : Node} {statements : List Node} {machine middle after : Machine}
    {problem : Diagnostic}
    (runs : perform rounds limit statement machine = .ok () middle)
    (stops : StopsWith limit rounds statements middle problem after) :
    StopsWith limit rounds (statement :: statements) machine problem after

variable {rounds : Nat} {statements : List Node} {machine after : Machine} {problem : Diagnostic}

/-- The statements are aborted, and not for want of rounds. -/
theorem StopsWith.inOrder (stops : StopsWith limit rounds statements machine problem after) :
    ∃ abort, inOrder (perform rounds limit) statements machine = .error abort after ∧
      abort ≠ .unfinished := by
  induction stops with
  | here aborts told =>
      refine ⟨_, bind_apply_error aborts, ?_⟩
      cases told <;> exact Abort.noConfusion
  | later runs _ inductionHypothesis =>
      rcases inductionHypothesis with ⟨abort, aborts, finished⟩
      exact ⟨abort, (bind_apply_ok runs).trans aborts, finished⟩

/-- The program ends with that problem, which is noted in the trace. -/
theorem StopsWith.runProgram (stops : StopsWith limit rounds statements machine problem after) :
    ∃ told,
      runProgram limit rounds statements machine = .ok (some problem) (after.note [told]) := by
  induction stops with
  | here aborts told =>
      rw [runProgram_cons, aborts]
      cases told <;> exact ⟨_, rfl⟩
  | later runs _ inductionHypothesis =>
      rw [runProgram_cons, runs]
      exact inductionHypothesis

theorem StopsWith.unique {problem' : Diagnostic} {after' : Machine}
    (stops : StopsWith limit rounds statements machine problem after)
    (stops' : StopsWith limit rounds statements machine problem' after') :
    problem = problem' ∧ after = after' := by
  induction stops with
  | here aborts told =>
      cases stops' with
      | here aborts' told' =>
          rw [aborts] at aborts'
          cases aborts'
          cases told <;> cases told' <;> exact ⟨rfl, rfl⟩
      | later runs' =>
          rw [aborts] at runs'
          cases runs'
  | later runs _ inductionHypothesis =>
      cases stops' with
      | here aborts' =>
          rw [runs] at aborts'
          cases aborts'
      | later runs' stops' =>
          rw [runs] at runs'
          cases runs'
          exact inductionHypothesis stops'

/-- Statements that are aborted are stopped by a problem, if the abort can be
told. -/
theorem exists_stopsWith {abort : Abort}
    (aborts : inOrder (perform rounds limit) statements machine = .error abort after)
    (told : ∀ statement, ∃ problem, abort.ToldAs statement problem) :
    ∃ problem, StopsWith limit rounds statements machine problem after := by
  induction statements generalizing machine with
  | nil => cases aborts
  | cons statement statements inductionHypothesis =>
      rw [Evaluation.inOrder, bind_apply] at aborts
      cases first : perform rounds limit statement machine with
      | ok a middle =>
          rw [first] at aborts
          rcases inductionHypothesis aborts with ⟨problem, stops⟩
          exact ⟨problem, .later first stops⟩
      | error abort' middle =>
          rw [first] at aborts
          cases aborts
          rcases told statement with ⟨problem, isTold⟩
          exact ⟨problem, .here first isTold⟩

theorem runProgram_of_inOrder (runs : inOrder (perform rounds limit) statements machine =
    .ok () after) : runProgram limit rounds statements machine = .ok none after := by
  have ends := runProgram_apply limit rounds statements machine
  rwa [runs] at ends

theorem runProgram_of_unfinished
    (aborts : inOrder (perform rounds limit) statements machine =
      .error .unfinished after) :
    runProgram limit rounds statements machine = .error .unfinished after := by
  have ends := runProgram_apply limit rounds statements machine
  rw [aborts] at ends
  rcases ends with ⟨statement, run⟩
  exact run

/-- The three ways in which the statements of a clean program end. -/
theorem inOrder_cases (limit rounds : Nat) (canonical : Node.AreCanonical statements)
    (topLevel : TopLevel machine) :
    (∃ after, inOrder (perform rounds limit) statements machine = .ok () after) ∨
      (∃ problem after, StopsWith limit rounds statements machine problem after) ∨
      ∃ after, inOrder (perform rounds limit) statements machine =
        .error .unfinished after := by
  have ends := follows_program limit rounds canonical (fun _ => trivial) [globalsOf machine] machine
    topLevel.matched
  generalize same : inOrder (perform rounds limit) statements machine = result at ends
  cases ends with
  | value => exact Or.inl ⟨_, rfl⟩
  | fault => exact Or.inr (Or.inl ((exists_stopsWith same fun _ => ⟨_, .fault⟩).imp fun _ stops =>
      ⟨_, stops⟩))
  | overNested =>
      exact Or.inr (Or.inl ((exists_stopsWith same fun _ => ⟨_, .overNested⟩).imp fun _ stops =>
        ⟨_, stops⟩))
  | unfinished => exact Or.inr (Or.inr ⟨_, rfl⟩)

theorem runProgram_cases (limit rounds : Nat) (canonical : Node.AreCanonical statements)
    (topLevel : TopLevel machine) :
    (∃ problem after, runProgram limit rounds statements machine = .ok problem after) ∨
      ∃ after, runProgram limit rounds statements machine = .error .unfinished after := by
  rcases inOrder_cases limit rounds canonical topLevel with
    ⟨after, ends⟩ | ⟨problem, after, stops⟩ | ⟨after, aborts⟩
  · exact Or.inl ⟨none, after, runProgram_of_inOrder ends⟩
  · rcases stops.runProgram with ⟨told, run⟩
    exact Or.inl ⟨some problem, _, run⟩
  · exact Or.inr ⟨after, runProgram_of_unfinished aborts⟩

/-! ## One program after another -/

/-- Run a computation and then, unless it has told of a problem, another one. -/
def followedBy (first second : Run (Option Diagnostic)) : Run (Option Diagnostic) := do
  match ← first with
  | some problem => return some problem
  | none => second

theorem followedBy_apply (first second : Run (Option Diagnostic)) (machine : Machine) :
    followedBy first second machine =
      match first machine with
      | .ok none after => second after
      | ended => ended := by
  rw [followedBy, bind_apply]
  cases first machine with
  | ok problem after => cases problem <;> rfl
  | error abort after => rfl

theorem followedBy_none (first : Run (Option Diagnostic)) :
    followedBy first (pure none) = first := by
  funext machine
  rw [followedBy_apply]
  cases first machine with
  | ok problem after => cases problem <;> rfl
  | error abort after => rfl

/-- Statements in a row run as the first of them do, followed by the others. -/
theorem runProgram_append (limit rounds : Nat) (statements others : List Node) :
    runProgram limit rounds (statements ++ others) =
      followedBy (runProgram limit rounds statements) (runProgram limit rounds others) := by
  funext machine
  rw [followedBy_apply]
  induction statements generalizing machine with
  | nil => rfl
  | cons statement statements inductionHypothesis =>
      rw [List.cons_append, runProgram_cons, runProgram_cons]
      cases perform rounds limit statement machine with
      | ok a middle => exact inductionHypothesis middle
      | error abort middle => cases abort <;> rfl

end TreeWalker.Evaluation
