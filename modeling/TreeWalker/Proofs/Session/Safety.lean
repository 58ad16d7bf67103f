import TreeWalker.Proofs.Evaluation.Dependence
import TreeWalker.Proofs.Session.Running

/-!
# Sessions are safe

What is read of a clean source are trees of that source.  So a session of sources
binds proper values only, whichever scopes are live, at the start and at the end of
every tree that is run.  A source that is stopped is stopped by one of a few
messages, and the names and sorts that they tell of are real ones.
-/

namespace TreeWalker

open Evaluation Grammar

/-! ## Trees of a clean source -/

/-- Scanned numbers carry a number, and scanned strings a text. -/
theorem Lexical.carries_of_mem_bodyOf {text : List Char} :
    ∀ token ∈ bodyOf text, token.Carries := by
  refine forall_mem_bodyOf fun piece _ => ?_
  cases piece with
  | number => exact ⟨fun _ => ⟨_, rfl⟩, TokenKind.noConfusion⟩
  | string => exact ⟨TokenKind.noConfusion, fun _ => ⟨_, rfl⟩⟩
  | _ => exact ⟨TokenKind.noConfusion, TokenKind.noConfusion⟩

variable {limit : Nat} {limits : Limits} {source : List Char} {treatment : Treatment}

/-- The statements of a clean source are trees of its tokens. -/
theorem Reading.areStatementsOf (clean : (ofSource limit source).diagnostics = []) :
    ∀ statement ∈ (ofSource limit source).statements,
      statement.IsStatementOf (Lexical.bodyOf source) := by
  have body : Body (ofSource limit source).statements (Lexical.bodyOf source) [] :=
    body_of_parsed Lexical.kind_ne_eof_of_mem_bodyOf rfl (parsed_of_clean clean)
  exact body.areStatementsOf Lexical.carries_of_mem_bodyOf

theorem Node.IsStatementOf.printStmt {tokens : List Token} {expr : Node}
    (statement : (exprStmt expr).IsStatementOf tokens) :
    (Node.printStmt expr).IsStatementOf tokens := by
  obtain ⟨isExpr, grounded⟩ := statement.evaluated
  refine ⟨Or.inr isExpr, fun mark member => ?_⟩
  rcases List.mem_cons.mp member with rfl | member
  · trivial
  · exact statement.grounded mark member

namespace Session

theorem prepared_cases (treatment : Treatment) (statements : List Node) :
    (∃ expr, statements = [.exprStmt expr] ∧
        prepared treatment statements = [.printStmt expr]) ∨
      prepared treatment statements = statements := by
  unfold prepared
  split
  · exact Or.inl ⟨_, rfl, rfl⟩
  · exact Or.inr rfl

/-- So are the statements that are run. -/
theorem areStatementsOf_prepared (treatment : Treatment)
    (clean : (Reading.ofSource limits.parsing source).diagnostics = []) :
    ∀ statement ∈ prepared treatment (Reading.ofSource limits.parsing source).statements,
      statement.IsStatementOf (Lexical.bodyOf source) := by
  have areStatements := Reading.areStatementsOf clean
  rcases prepared_cases treatment (Reading.ofSource limits.parsing source).statements with
    ⟨expr, sole, prints⟩ | asIs
  · rw [sole, List.forall_mem_singleton] at areStatements
    rw [prints, List.forall_mem_singleton]
    exact areStatements.printStmt
  · rwa [asIs]

end Session

/-! ## Runs of sources -/

namespace Evaluation

/-- The problem that is told of a source is a foreseen one. -/
theorem Guarded.session (limits : Limits) (rounds : Nat) (treatment : Treatment)
    (source : List Char) :
    Guarded (Lexical.bodyOf source)
      (fun outcome => KnownProblem (Lexical.bodyOf source) outcome.runtimeDiagnostic)
      (Session.run limits rounds treatment source) := by
  refine (note _).bind fun _ _ => ?_
  split
  · next runs =>
      have clean := Reading.isClean_iff.mp (Bool.and_eq_true_iff.mp runs).1
      exact (runProgram (Session.areStatementsOf_prepared treatment clean) rounds).bind
        fun _ known => pure known
  · exact pure .none

theorem safe_session (limits : Limits) (rounds : Nat) (treatment : Treatment)
    (source : List Char) :
    Safe (Lexical.bodyOf source)
      (fun outcome => KnownProblem (Lexical.bodyOf source) outcome.runtimeDiagnostic)
      (Session.run limits rounds treatment source) :=
  ⟨.session limits rounds treatment source, .session limits rounds treatment source⟩

theorem Safe.sound_leftBy {α : Type} {tokens : List Token} {good : α → Prop} {run : Run α}
    (safe : Safe tokens good run) {machine : Machine} (sound : Sound machine) :
    Sound (leftBy run machine) := by
  have ends := safe.ends sound
  unfold leftBy
  generalize run machine = result at ends
  cases ends with
  | value sound _ | abort sound _ _ => exact sound

/-- A call that gives a source to the interpreter. -/
def Call.IsSource : Call → Prop
  | .source .. => True
  | .interpret .. | .evaluate .. => False

/-- After some sources, clean or not, the values are proper and the scopes in order. -/
theorem sound_leaveAll {calls : List Call} (sources : ∀ call ∈ calls, call.IsSource)
    {machine : Machine} (sound : Sound machine) : Sound (leaveAll calls machine) := by
  induction calls generalizing machine with
  | nil => exact sound
  | cons call calls inductionHypothesis =>
      have others := fun call member => sources call (List.mem_cons_of_mem _ member)
      cases call with
      | source limits rounds treatment text =>
          exact inductionHypothesis others
            ((safe_session limits rounds treatment text).sound_leftBy sound)
      | interpret | evaluate => exact (sources _ List.mem_cons_self).elim

theorem sound_initial (tracing : Bool) : Sound (.initial tracing) :=
  ⟨standing_initial tracing, Scope.Arena.IsProper.initial⟩

end Evaluation

namespace Session

/-- What can be relied on while a source is run on a machine. -/
structure Reliable (limits : Limits) (rounds : Nat) (treatment : Treatment) (source : List Char)
    (machine : Machine) : Prop where
  /-- The values bound before are proper, and the scopes in order. -/
  start : Sound machine
  /-- So they are whenever a tree is started on the way, and when it has ended.  An
  expression comes to a proper value, or it is aborted by what is foreseen. -/
  along : treatment.execute = true → ∀ task begun,
    Reached limits.running rounds
      (prepared treatment (Reading.ofSource limits.parsing source).statements)
      (machine.note (Reading.ofSource limits.parsing source).trace) task begun →
    Sound begun ∧ task.EndsSafely (Lexical.bodyOf source) rounds begun
  /-- These are all the trees that are started: they settle what the program comes to, and
  what each of them comes to. -/
  complete : treatment.execute = true →
    let statements := prepared treatment (Reading.ofSource limits.parsing source).statements
    let start := machine.note (Reading.ofSource limits.parsing source).trace
    ProgramSettledBy limits.running rounds (Reached limits.running rounds statements start)
      statements start ∧
    ∀ task begun, Reached limits.running rounds statements start task begun →
      task.SettledBy rounds (Reached limits.running rounds statements start) begun
  /-- In the end there is a problem with a foreseen message, or none, unless a loop was
  out of rounds. -/
  ends : (∃ outcome after, run limits rounds treatment source machine = .ok outcome after ∧
      Sound after ∧ KnownProblem (Lexical.bodyOf source) outcome.runtimeDiagnostic) ∨
    ∃ after, run limits rounds treatment source machine = .error .unfinished after ∧ Sound after
  /-- No number is divided by a zero of either sign. -/
  division : ∀ operator, operator.kind = .symbol .slash → ∀ x y : Float, y == 0.0 →
    applyBinary operator (.number x) (.number y) = .error .divisionByZero

theorem areCanonical_prepared (treatment : Treatment)
    (clean : (Reading.ofSource limits.parsing source).diagnostics = []) :
    Node.AreCanonical (prepared treatment (Reading.ofSource limits.parsing source).statements) := by
  have canonical := Reading.areCanonical clean
  rcases prepared_cases treatment (Reading.ofSource limits.parsing source).statements with
    ⟨expr, sole, prints⟩ | asIs
  · rw [sole] at canonical
    rw [prints]
    exact canonical
  · rwa [asIs]

/-- A clean source comes to an outcome, or a loop in it is out of rounds. -/
theorem run_cases (rounds : Nat) (treatment : Treatment) {machine : Machine}
    (clean : (Reading.ofSource limits.parsing source).diagnostics = [])
    (topLevel : TopLevel machine) :
    (∃ outcome after, run limits rounds treatment source machine = .ok outcome after) ∨
      ∃ after, run limits rounds treatment source machine = .error .unfinished after := by
  cases executes : treatment.execute with
  | false =>
      simp only [run, runBy, executes, Bool.and_false, Bool.false_eq_true, if_false]
      exact Or.inl ⟨_, _, rfl⟩
  | true =>
      rw [run_of_clean rounds machine executes clean]
      rcases runProgram_cases limits.running rounds (areCanonical_prepared treatment clean)
        (topLevel.note (Reading.ofSource limits.parsing source).trace) with
        ⟨_, after, runs⟩ | ⟨after, aborts⟩
      · exact Or.inl ⟨_, after, bind_apply_ok runs⟩
      · exact Or.inr ⟨after, bind_apply_error aborts⟩

/-- In a session of sources, a clean source is run on proper values all along, and can
be stopped in the foreseen ways only. -/
theorem reliable_of_clean (rounds : Nat) (treatment : Treatment) (tracing : Bool)
    {calls : List Call} (sources : ∀ call ∈ calls, call.IsSource)
    (clean : (Reading.ofSource limits.parsing source).diagnostics = []) :
    Reliable limits rounds treatment source (leaveAll calls (.initial tracing)) := by
  have start := sound_leaveAll sources (sound_initial tracing)
  have topLevel := (topLevel_initial tracing).of_restored
    (restored_leaveAll calls (standing_initial tracing))
  refine ⟨start, fun _ task begun reached => ?_,
    fun _ => ⟨programSettledBy_reached, fun _ _ reached => reached.settled⟩, ?_,
    fun operator isSlash x y isZero => ?_⟩
  · obtain ⟨isOf, sound⟩ := reached.sound (areStatementsOf_prepared treatment clean) (start.note _)
    exact ⟨sound, isOf.ends rounds sound⟩
  · have ends := (safe_session limits rounds treatment source).ends start
    rcases run_cases rounds treatment clean topLevel with ⟨outcome, after, runs⟩ | ⟨after, aborts⟩
    · rw [runs] at ends
      cases ends with
      | value sound known => exact Or.inl ⟨outcome, after, runs, sound, known⟩
    · rw [aborts] at ends
      cases ends with
      | abort sound _ _ => exact Or.inr ⟨after, aborts, sound⟩
  · simp [applyBinary, isSlash, applySymbol?, numeric?, isZero]

/-- A variable is declared, and a source that is not clean is given. -/
def sampleCalls : List Call :=
  [.source (.uniform 100) 0 .script "var a = 1;".toList,
    .source (.uniform 100) 0 .prompt "a = ;".toList]

/-- A number is to be divided by a negative zero. -/
def sampleQuotient : List Char :=
  "{ var b = -0; print a / b; }".toList

/-- The division is refused. -/
theorem reliable_of_clean_quotient :
    (∀ call ∈ sampleCalls, call.IsSource) ∧
      (Reading.ofSource 100 sampleQuotient).diagnostics = [] ∧
      Reliable (.uniform 100) 0 .script sampleQuotient (leaveAll sampleCalls (.initial false)) ∧
      ((run (.uniform 100) 0 .script sampleQuotient).run'
          (leaveAll sampleCalls (.initial false))).bind Outcome.runtimeDiagnostic =
        some ⟨.runtime, 1, "", "Division by zero."⟩ := by
  have sources : ∀ call ∈ sampleCalls, call.IsSource := by simp [sampleCalls, Call.IsSource]
  have clean : (Reading.ofSource 100 sampleQuotient).diagnostics = [] := by decide +kernel
  exact ⟨sources, clean, reliable_of_clean 0 .script false sources clean, by decide +kernel⟩

end Session

end TreeWalker
