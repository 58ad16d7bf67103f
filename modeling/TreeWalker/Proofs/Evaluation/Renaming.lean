import TreeWalker.Proofs.Evaluation.Independence
import TreeWalker.Proofs.Scope.Renaming
import TreeWalker.Proofs.Tree.Renaming

/-!
# Nothing depends on the choice of names

A tree under other names, run on a machine under these names, does step by step what it does
under its own: changing the names before a run or after it comes to the same.  This holds for
every tree and every machine, as long as different variables keep different names.  A name is
shown in one place only, the message about a variable that is not declared.
-/

namespace TreeWalker.Evaluation

open Scope (Arena Bindings)

variable {limit : Nat}

variable (rename : String → String)

/-- The fault under other names. -/
def Fault.renamed : Fault → Fault
  | undefined name => undefined (rename name)
  | other => other

/-- The abort under other names. -/
def Abort.renamed : Abort → Abort
  | fault line problem => fault line (problem.renamed rename)
  | other => other

/-- The machine with the names of all variables changed. -/
def Machine.renamed (machine : Machine) : Machine :=
  { machine with arena := machine.arena.renamed rename }

@[simp]
theorem Machine.renamed_note (machine : Machine) (lines : List String) :
    (machine.note lines).renamed rename = (machine.renamed rename).note lines := by
  unfold note renamed
  split <;> rfl

/-- The end of a run under other names. -/
def renamedEnd {α : Type} : EStateM.Result Abort Machine α → EStateM.Result Abort Machine α
  | .ok a after => .ok a (after.renamed rename)
  | .error abort after => .error (abort.renamed rename) (after.renamed rename)

/-- Another run does under the changed names what a run does under the old ones. -/
def Translates {α : Type} (run other : Run α) : Prop :=
  ∀ machine, other (machine.renamed rename) = renamedEnd rename (run machine)

/-! ## Faults of operations -/

/-- The result of an operation that names no variable if it fails. -/
def IsNameless {α : Type} (result : Except Fault α) : Prop :=
  ∀ fault, result = .error fault → fault.renamed rename = fault

namespace IsNameless

variable {rename} {α : Type}

theorem ok (a : α) : IsNameless rename (.ok a : Except Fault α) :=
  fun _ => nofun

theorem error {fault : Fault} (same : fault.renamed rename = fault) :
    IsNameless rename (.error fault : Except Fault α) := by
  rintro _ ⟨⟩
  exact same

theorem applyUnary (operator : Token) (operand : Value) :
    IsNameless rename (applyUnary operator operand) := by
  unfold Evaluation.applyUnary
  split
  · cases operand <;> first | exact ok _ | exact error rfl
  · exact ok _
  · exact error rfl

theorem add (left right : Value) : IsNameless rename (add left right) := by
  cases left <;> cases right <;> first | exact ok _ | exact error rfl

theorem numeric {symbol : Symbol} {operation : Float → Float → Except Fault Value}
    (denotes : numeric? symbol = some operation) (x y : Float) :
    IsNameless rename (operation x y) := by
  cases symbol <;> cases denotes
  case slash =>
    dsimp only
    split
    · exact error rfl
    · exact ok _
  all_goals exact ok _

theorem numericOnly {operation : Float → Float → Except Fault Value}
    (operates : ∀ x y, IsNameless rename (operation x y)) (left right : Value) :
    IsNameless rename (match left, right with
      | .number x, .number y => operation x y
      | _, _ => .error .operands) := by
  split
  · exact operates _ _
  · exact error rfl

theorem applySymbol {symbol : Symbol} {left right : Value} {result : Except Fault Value}
    (applies : applySymbol? symbol left right = some result) : IsNameless rename result := by
  unfold applySymbol? at applies
  split at applies
  · cases applies
    exact add left right
  · cases applies
    exact ok _
  · cases applies
    exact ok _
  · obtain ⟨operation, denotes, rfl⟩ := Option.map_eq_some_iff.mp applies
    exact numericOnly (numeric denotes) left right

theorem applyBinary (operator : Token) (left right : Value) :
    IsNameless rename (applyBinary operator left right) := by
  unfold Evaluation.applyBinary
  dsimp only
  split
  · next symbol _ =>
      cases applies : applySymbol? symbol left right with
      | none => exact error rfl
      | some result => exact applySymbol applies
  · exact error rfl

end IsNameless

namespace Translates

variable {rename} {α β : Type} {run other : Run α} {next following : α → Run β}

/-! ## Sequences -/

theorem pure (a : α) : Translates rename (pure a : Run α) (pure a) :=
  fun _ => rfl

theorem throw {abort abort' : Abort} (same : abort' = abort.renamed rename) :
    Translates rename (throw abort : Run α) (throw abort') := by
  subst same
  exact fun _ => rfl

theorem bind (first : Translates rename run other)
    (second : ∀ a, Translates rename (next a) (following a)) :
    Translates rename (run >>= next) (other >>= following) := by
  intro machine
  rw [bind_apply, bind_apply, first machine]
  cases run machine with
  | ok a after => exact second a after
  | error abort after => rfl

/-! ## Operations of the machine -/

theorem atToken {token : Token} {result : Except Fault α} (nameless : IsNameless rename result) :
    Translates rename (atToken token result) (atToken token result) := by
  cases result with
  | ok a => exact pure a
  | error fault =>
      refine throw ?_
      rw [Abort.renamed, nameless fault rfl]

theorem onScopes (result : Except Scope.Fault α) :
    Translates rename (onScopes result) (onScopes result) := by
  cases result with
  | ok a => exact pure a
  | error fault => exact throw rfl

/-- What is done after an operation on scopes that gives a changed result. -/
theorem afterScopes {γ : Type} {result : Except Scope.Fault α} {change : α → β}
    {next : α → Run γ} {following : β → Run γ} {machine : Machine}
    (onward : ∀ a, following (change a) (machine.renamed rename) =
      renamedEnd rename (next a machine)) :
    (Evaluation.onScopes (result.map change) >>= following) (machine.renamed rename) =
      renamedEnd rename ((Evaluation.onScopes result >>= next) machine) := by
  cases result with
  | error fault => rfl
  | ok a => exact onward a

theorem trace (line : String) : Translates rename (trace line) (trace line) := by
  intro machine
  change EStateM.Result.ok () ((machine.renamed rename).note [line]) =
    .ok () ((machine.note [line]).renamed rename)
  rw [Machine.renamed_note]

theorem printLine (line : String) : Translates rename (printLine line) (printLine line) :=
  fun _ => rfl

section Variables

variable (injective : Function.Injective rename) (name : Token) (value : Value)

include injective

theorem readVariable :
    Translates rename (readVariable name) (readVariable (name.renamed rename)) := by
  intro machine
  have finds : Arena.lookup (machine.renamed rename).arena machine.current
      (rename name.lexeme) = machine.arena.lookup machine.current name.lexeme :=
    Arena.lookup_renamed _ _ _ injective
  rw [Evaluation.readVariable, get_bind_apply, Evaluation.readVariable, get_bind_apply]
  change (Evaluation.onScopes (Arena.lookup _ machine.current (rename name.lexeme)) >>= _) _ = _
  rw [finds]
  refine bind (onScopes _) (fun found => ?_) machine
  cases found with
  | some value => exact pure value
  | none => exact throw rfl

theorem writeVariable :
    Translates rename (writeVariable name value) (writeVariable (name.renamed rename) value) := by
  intro machine
  have updates : Arena.update (machine.renamed rename).arena machine.current
      (rename name.lexeme) value = (machine.arena.update machine.current name.lexeme value).map
        (Option.map (Arena.renamed rename)) :=
    Arena.update_renamed _ _ _ _ injective
  rw [Evaluation.writeVariable, get_bind_apply, Evaluation.writeVariable, get_bind_apply]
  change (Evaluation.onScopes (Arena.update _ machine.current (rename name.lexeme) value) >>= _) _ =
    _
  rw [updates]
  refine afterScopes fun found => ?_
  cases found <;> rfl

theorem declareVariable :
    Translates rename (declareVariable name value)
      (declareVariable (name.renamed rename) value) := by
  intro machine
  have declares : Arena.declare (machine.renamed rename).arena machine.current
      (rename name.lexeme) value = (machine.arena.declare machine.current name.lexeme value).map
        (Arena.renamed rename) :=
    Arena.declare_renamed _ _ _ _ injective
  rw [Evaluation.declareVariable, get_bind_apply, Evaluation.declareVariable, get_bind_apply]
  change (Evaluation.onScopes
    (Arena.declare _ machine.current (rename name.lexeme) value) >>= _) _ = _
  rw [declares]
  exact afterScopes fun _ => rfl

end Variables

/-! ## Blocks -/

theorem enterScope : Translates rename enterScope enterScope := by
  intro machine
  have nests : Arena.nest (machine.renamed rename).arena machine.current =
      (machine.arena.nest machine.current).map fun opened =>
        (opened.1, opened.2.renamed rename) :=
    Arena.nest_renamed _ _
  rw [Evaluation.enterScope, get_bind_apply, get_bind_apply]
  change (Evaluation.onScopes (Arena.nest _ machine.current) >>= _) _ = _
  rw [nests]
  refine afterScopes fun opened => ?_
  let entered : Machine := { machine with arena := opened.2, current := opened.1 }
  change (if machine.tracing = true then _ else _ : Run Unit) (entered.renamed rename) =
    renamedEnd rename ((if machine.tracing = true then _ else _ : Run Unit) entered)
  split
  · rw [Arena.depth_renamed]
    exact (bind (onScopes _) fun depth => trace _) entered
  · rfl

theorem leaveScope (outer : Scope.Handle) :
    Translates rename (leaveScope outer) (leaveScope outer) := by
  intro machine
  have discards : Arena.discard (machine.renamed rename).arena machine.current =
      (machine.arena.discard machine.current).map fun discarded =>
        (discarded.1, discarded.2.renamed rename) :=
    Arena.discard_renamed _ _
  let left : Machine := { machine with current := outer }
  rw [Evaluation.leaveScope, get_bind_apply, get_bind_apply]
  change (Evaluation.onScopes (Arena.discard _ machine.current) >>= _) (left.renamed rename) =
    renamedEnd rename ((Evaluation.onScopes (machine.arena.discard machine.current) >>= _) left)
  rw [discards]
  exact afterScopes fun discarded => trace _ { left with arena := discarded.2 }

theorem andFinally {body body' closing closing' : Run Unit} (inside : Translates rename body body')
    (closes : Translates rename closing closing') :
    Translates rename (andFinally body closing) (andFinally body' closing') := by
  intro machine
  rw [Evaluation.andFinally, Evaluation.andFinally, inside machine]
  cases body machine with
  | ok a after => exact closes after
  | error abort after =>
      simp only [renamedEnd, closes after]
      cases closing after <;> rfl

theorem inOwnScope {body body' : Run Unit} (inside : Translates rename body body') :
    Translates rename (inOwnScope body) (inOwnScope body') := by
  intro machine
  rw [Evaluation.inOwnScope, get_bind_apply, Evaluation.inOwnScope, get_bind_apply]
  exact (enterScope.bind fun _ => andFinally inside (leaveScope machine.current)) machine

/-! ## Trees -/

theorem whileTruthy {test test' : Run Value} {body body' : Run Unit}
    (tests : Translates rename test test') (runs : Translates rename body body') (rounds : Nat) :
    Translates rename (whileTruthy test body rounds) (whileTruthy test' body' rounds) := by
  induction rounds with
  | zero => exact throw rfl
  | succ rounds inductionHypothesis =>
      refine tests.bind fun outcome => ?_
      split
      · exact runs.bind fun _ => inductionHypothesis
      · exact pure ()

theorem inOrder {perform : Node → Run Unit}
    (runs : ∀ node, Translates rename (perform node) (perform (node.renamed rename)))
    (statements : List Node) :
    Translates rename (inOrder perform statements)
      (inOrder perform (Node.renamedAll rename statements)) := by
  induction statements with
  | nil => exact pure ()
  | cons statement statements inductionHypothesis =>
      exact (runs statement).bind fun _ => inductionHypothesis

section Trees

variable (injective : Function.Injective rename)

include injective

theorem evaluate (levels : Nat) (node : Node) :
    Translates rename (evaluate levels node) (evaluate levels (node.renamed rename)) := by
  induction levels generalizing node with
  | zero => exact throw rfl
  | succ levels inductionHypothesis =>
      cases node with
      | literal value => exact pure value
      | grouping inner => exact inductionHypothesis inner
      | unary operator operand =>
          exact (inductionHypothesis operand).bind fun value =>
            atToken (.applyUnary operator value)
      | binary left operator right =>
          exact (inductionHypothesis left).bind fun x => (inductionHypothesis right).bind fun y =>
            atToken (.applyBinary operator x y)
      | logical left operator right =>
          refine (inductionHypothesis left).bind fun value => ?_
          split
          · exact pure value
          · exact inductionHypothesis right
      | reference name => exact readVariable injective name
      | assign name value =>
          exact (inductionHypothesis value).bind fun value =>
            (writeVariable injective name value).bind fun _ => pure value
      | _ => exact throw rfl

theorem initialValue (levels : Nat) (initializer : Node) :
    Translates rename (initialValue levels initializer)
      (initialValue levels (initializer.renamed rename)) := by
  cases initializer with
  | absent => exact pure Value.nil
  | _ => exact evaluate injective levels _

theorem perform (rounds levels : Nat) (node : Node) :
    Translates rename (perform rounds levels node)
      (perform rounds levels (node.renamed rename)) := by
  induction levels generalizing node with
  | zero => exact throw rfl
  | succ levels inductionHypothesis =>
      have evaluates := evaluate injective levels
      cases node with
      | exprStmt expr =>
          exact (trace _).bind fun _ => (evaluates expr).bind fun _ => pure ()
      | printStmt expr =>
          exact (trace _).bind fun _ => (evaluates expr).bind fun value =>
            printLine value.display
      | varStmt name initializer =>
          exact (trace _).bind fun _ =>
            (initialValue injective levels initializer).bind fun value =>
              declareVariable injective name value
      | blockStmt body =>
          exact (trace _).bind fun _ => inOwnScope (inOrder inductionHypothesis body)
      | ifStmt condition thenBranch elseBranch =>
          rw [Node.renamed, perform_ifStmt, perform_ifStmt]
          refine (trace _).bind fun _ => (evaluates condition).bind fun outcome => ?_
          split
          · exact inductionHypothesis thenBranch
          · cases elseBranch with
            | absent => exact pure ()
            | _ => exact inductionHypothesis _
      | whileStmt condition body =>
          exact (trace _).bind fun _ =>
            whileTruthy (evaluates condition) (inductionHypothesis body) rounds
      | _ => exact (trace _).bind fun _ => throw rfl

end Trees

end Translates

/-! ## Programs -/

variable {rename}

/-- A machine has printed the same lines as another one, and has the same scopes with all
names changed, the global one among them. -/
structure Renames (rename : String → String) (machine other : Machine) : Prop where
  output : other.output = machine.output
  current : other.current = machine.current
  arena : other.arena = machine.arena.renamed rename
  globals : other.arena.globals = machine.arena.globals.renamed rename

/-- Two runs of programs have ended in the same way but for the names: without a problem, with
a fault on the same line, with nesting that was too deep, or aborted without a diagnostic. -/
inductive EndsRenamed (rename : String → String) :
    EStateM.Result Abort Machine (Option Diagnostic) →
      EStateM.Result Abort Machine (Option Diagnostic) → Prop where
  | completed {after after' : Machine} (effect : Renames rename after after') :
    EndsRenamed rename (.ok none after) (.ok none after')
  | faulted {line : Int} {fault : Fault} {after after' : Machine}
    (effect : Renames rename after after') :
    EndsRenamed rename (.ok (some ⟨.runtime, line, "", fault.message⟩) after)
      (.ok (some ⟨.runtime, line, "", (fault.renamed rename).message⟩) after')
  | overNested {line : Int} {after after' : Machine} (effect : Renames rename after after') :
    EndsRenamed rename (.ok (some ⟨.runtime, line, "", nestingMessage⟩) after)
      (.ok (some ⟨.runtime, line, "", nestingMessage⟩) after')
  | aborted {abort : Abort} {after after' : Machine} (effect : Renames rename after after') :
    EndsRenamed rename (.error abort after) (.error abort after')

theorem renames_renamed (machine : Machine) : Renames rename machine (machine.renamed rename) :=
  ⟨rfl, rfl, rfl, Arena.globals_renamed machine.arena⟩

/-- Different lines may be noted. -/
theorem Renames.note {machine other : Machine} (renames : Renames rename machine other)
    (lines lines' : List String) : Renames rename (machine.note lines) (other.note lines') := by
  obtain ⟨output, current, arena, globals⟩ := renames
  unfold Machine.note
  split <;> split <;> exact ⟨output, current, arena, globals⟩

/-- The problem of a statement is told in the same way under other names. -/
theorem endsRenamed_diagnose (statement : Node) (abort : Abort) (after : Machine) :
    EndsRenamed rename (diagnose statement abort after)
      (diagnose (statement.renamed rename) (abort.renamed rename) (after.renamed rename)) := by
  have renames : Renames rename after (after.renamed rename) := renames_renamed after
  cases abort with
  | fault line fault => exact .faulted (renames.note _ _)
  | overNested =>
      change EndsRenamed rename (stopWith (statement.leadingLine 1) nestingMessage _ after)
        (stopWith ((statement.renamed rename).leadingLine 1) nestingMessage _ _)
      rw [Node.leadingLine_renamed]
      exact .overNested (renames.note _ _)
  | misplaced | scope | unfinished => exact .aborted renames

/-- Whatever the names of its variables are changed to, as long as different names stay
different, a program prints the same lines and ends in the same way, with the new name in the
message about a variable that is not declared; and it leaves the same scopes with all
names changed, the global variables among them. -/
theorem runProgram_renamed (injective : Function.Injective rename) (rounds : Nat)
    (statements : List Node) (machine : Machine) :
    EndsRenamed rename (runProgram limit rounds statements machine)
      (runProgram limit rounds (Node.renamedAll rename statements) (machine.renamed rename)) := by
  induction statements generalizing machine with
  | nil => exact .completed (renames_renamed machine)
  | cons statement statements inductionHypothesis =>
      have translated := Translates.perform injective rounds limit statement machine
      rw [Node.renamedAll, runProgram_cons, runProgram_cons, translated]
      cases perform rounds limit statement machine with
      | ok _ after => exact inductionHypothesis after
      | error abort after => exact endsRenamed_diagnose statement abort after

/-- A name with a letter in front. -/
def lengthened (name : String) : String :=
  "x" ++ name

/-- A block that lends a variable and a fault after it, under longer names. -/
theorem runProgram_renamed_borrowing :
    Function.Injective lengthened ∧
      EndsRenamed lengthened (runProgram 100 0 borrowing youngMachine)
        (runProgram 100 0 (Node.renamedAll lengthened borrowing)
          (youngMachine.renamed lengthened)) ∧
      (runProgram 100 0 (Node.renamedAll lengthened borrowing)).run'
        (youngMachine.renamed lengthened) =
          some (some ⟨.runtime, 1, "", "Undefined variable 'xa'."⟩) ∧
      (leftBy (runProgram 100 0 (Node.renamedAll lengthened borrowing))
        (youngMachine.renamed lengthened)).arena.globals = [("xb", .nil)] := by
  have injective : Function.Injective lengthened := by
    intro name other same
    simpa [lengthened] using same
  exact ⟨injective, runProgram_renamed injective 0 borrowing youngMachine, by decide +kernel,
    by decide +kernel⟩

end TreeWalker.Evaluation
