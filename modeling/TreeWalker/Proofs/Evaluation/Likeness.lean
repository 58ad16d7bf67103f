import TreeWalker.Proofs.Evaluation.Stopping
import TreeWalker.Proofs.Evaluation.Tracing
import TreeWalker.Proofs.Tree.Likeness

/-!
# Running does not look at lines

Trees that are alike have the same values and effects on the same machine, and
are aborted by the same faults.  The lines of tokens only come in where a fault is
told, and there each run tells the line of its own token.
-/

namespace TreeWalker.Evaluation

variable {limit : Nat}

/-- Aborts that agree but for the line of a fault. -/
inductive Abort.Alike (lines : Int → Int → Prop) : Abort → Abort → Prop where
  | fault {line line' : Int} {fault : Fault} (correspond : lines line line') :
    Alike lines (.fault line fault) (.fault line' fault)
  | misplaced {node : Misplaced} : Alike lines (.misplaced node) (.misplaced node)
  | scope {fault : Scope.Fault} : Alike lines (.scope fault) (.scope fault)
  | overNested : Alike lines .overNested .overNested
  | unfinished : Alike lines .unfinished .unfinished

/-- Two computations have ended in the same way, but for the line of a fault. -/
inductive EndsAlike {α : Type} (lines : Int → Int → Prop) :
    EStateM.Result Abort Machine α → EStateM.Result Abort Machine α → Prop where
  | value {a : α} {after : Machine} : EndsAlike lines (.ok a after) (.ok a after)
  | abort {abort abort' : Abort} {after : Machine} (aborts : abort.Alike lines abort') :
    EndsAlike lines (.error abort after) (.error abort' after)

/-- On every machine the computations end in the same way. -/
def Mirrors {α : Type} (lines : Int → Int → Prop) (run run' : Run α) : Prop :=
  ∀ machine, EndsAlike lines (run machine) (run' machine)

variable {lines : Int → Int → Prop}

/-! ## Operators -/

section Operators

variable {operator operator' : Token} (operators : operator.Alike lines operator')

include operators

theorem applyUnary_eq_of_alike (operand : Value) :
    applyUnary operator operand = applyUnary operator' operand := by
  unfold applyUnary
  rw [operators.kind, operators.lexeme]

theorem applyBinary_eq_of_alike (left right : Value) :
    applyBinary operator left right = applyBinary operator' left right := by
  rw [applyBinary, applyBinary, operators.kind, operators.lexeme]

theorem decides_eq_of_alike (left : Value) : decides operator left = decides operator' left := by
  rw [decides, decides, operators.kind]

end Operators

namespace Mirrors

/-! ## Sequences -/

variable {α β : Type} {run run' : Run α} {next next' : α → Run β}

theorem pure (a : α) : Mirrors lines (pure a : Run α) (pure a : Run α) :=
  fun _ => .value

theorem throw {abort abort' : Abort} (aborts : abort.Alike lines abort') :
    Mirrors lines (throw abort : Run α) (throw abort' : Run α) :=
  fun _ => .abort aborts

theorem get : Mirrors lines (get : Run Machine) (get : Run Machine) :=
  fun _ => .value

theorem set (machine : Machine) :
    Mirrors lines (set machine : Run PUnit) (set machine : Run PUnit) :=
  fun _ => .value

theorem bind (first : Mirrors lines run run') (second : ∀ a, Mirrors lines (next a) (next' a)) :
    Mirrors lines (run >>= next) (run' >>= next') := by
  intro machine
  have ends := first machine
  rw [bind_apply, bind_apply]
  generalize run machine = result, run' machine = result' at ends
  cases ends with
  | value => exact second _ _
  | abort aborts => exact .abort aborts

/-! ## Operations of the machine -/

theorem trace (line : String) : Mirrors lines (trace line) (trace line) :=
  fun _ => .value

theorem printLine (line : String) : Mirrors lines (printLine line) (printLine line) :=
  fun _ => .value

/-- Each token tells its own line. -/
theorem atToken {token token' : Token} (tokens : token.Alike lines token')
    (result : Except Fault α) :
    Mirrors lines (atToken token result) (atToken token' result) := by
  cases result with
  | ok a => exact pure a
  | error fault => exact throw (.fault tokens.line)

theorem onScopes (result : Except Scope.Fault α) :
    Mirrors lines (onScopes result) (onScopes result) := by
  cases result with
  | ok a => exact pure a
  | error fault => exact throw .scope

section Variables

variable {name name' : Token}

theorem readVariable (names : name.Alike lines name') :
    Mirrors lines (readVariable name) (readVariable name') := by
  unfold Evaluation.readVariable
  rw [names.lexeme]
  refine get.bind fun machine => (onScopes _).bind fun found => ?_
  cases found with
  | some value => exact pure value
  | none => exact atToken names _

theorem writeVariable (names : name.Alike lines name') (value : Value) :
    Mirrors lines (writeVariable name value) (writeVariable name' value) := by
  unfold Evaluation.writeVariable
  rw [names.lexeme]
  refine get.bind fun machine => (onScopes _).bind fun found => ?_
  cases found with
  | some arena => exact set _
  | none => exact atToken names _

theorem declareVariable (names : name.Alike lines name') (value : Value) :
    Mirrors lines (declareVariable name value) (declareVariable name' value) := by
  unfold Evaluation.declareVariable
  rw [names.lexeme]
  exact get.bind fun machine => (onScopes _).bind fun arena => set _

end Variables

/-! ## Blocks -/

theorem enterScope : Mirrors lines enterScope enterScope := by
  refine get.bind fun machine => (onScopes _).bind fun nested => (set _).bind fun _ => ?_
  split
  · exact (onScopes _).bind fun depth => trace _
  · exact pure ()

theorem leaveScope (outer : Scope.Handle) : Mirrors lines (leaveScope outer) (leaveScope outer) :=
  get.bind fun _ => (set _).bind fun _ => (onScopes _).bind fun _ => (set _).bind fun _ => trace _

theorem andFinally {body body' closing : Run Unit} (bodies : Mirrors lines body body')
    (closes : Mirrors lines closing closing) :
    Mirrors lines (andFinally body closing) (andFinally body' closing) := by
  intro machine
  have ends := bodies machine
  unfold Evaluation.andFinally
  generalize body machine = result, body' machine = result' at ends
  cases ends with
  | value => exact closes _
  | @abort _ _ after aborts =>
      have closed := closes after
      dsimp only
      generalize closing after = result at closed
      cases closed with
      | value => exact .abort aborts
      | abort failures => exact .abort failures

theorem inOwnScope {body body' : Run Unit} (bodies : Mirrors lines body body') :
    Mirrors lines (inOwnScope body) (inOwnScope body') :=
  get.bind fun _ => enterScope.bind fun _ => andFinally bodies (leaveScope _)

/-! ## Trees -/

theorem whileTruthy {test test' : Run Value} {body body' : Run Unit}
    (tests : Mirrors lines test test') (bodies : Mirrors lines body body') (rounds : Nat) :
    Mirrors lines (whileTruthy test body rounds) (whileTruthy test' body' rounds) := by
  induction rounds with
  | zero => exact throw .unfinished
  | succ rounds inductionHypothesis =>
      refine tests.bind fun outcome => ?_
      split
      · exact bodies.bind fun _ => inductionHypothesis
      · exact pure ()

theorem inOrder {run : Node → Run Unit}
    (runs : ∀ node node' : Node, node.Alike lines node' → Mirrors lines (run node) (run node'))
    {statements statements' : List Node} (alike : Node.AllAlike lines statements statements') :
    Mirrors lines (inOrder run statements) (inOrder run statements') := by
  induction alike with
  | nil => exact pure ()
  | cons first _ inductionHypothesis => exact (runs _ _ first).bind fun _ => inductionHypothesis

theorem evaluate (levels : Nat) {node node' : Node} (alike : node.Alike lines node') :
    Mirrors lines (evaluate levels node) (evaluate levels node') := by
  induction levels generalizing node node' with
  | zero => exact throw .overNested
  | succ levels inductionHypothesis =>
      cases alike with
      | literal => exact pure _
      | grouping inside => exact inductionHypothesis inside
      | unary operators operands =>
          refine (inductionHypothesis operands).bind fun operand => ?_
          rw [applyUnary_eq_of_alike operators]
          exact atToken operators _
      | binary lefts operators rights =>
          refine (inductionHypothesis lefts).bind fun left =>
            (inductionHypothesis rights).bind fun right => ?_
          rw [applyBinary_eq_of_alike operators]
          exact atToken operators _
      | logical lefts operators rights =>
          refine (inductionHypothesis lefts).bind fun left => ?_
          rw [decides_eq_of_alike operators]
          split
          · exact pure left
          · exact inductionHypothesis rights
      | reference names => exact readVariable names
      | assign names values =>
          exact (inductionHypothesis values).bind fun value =>
            (writeVariable names value).bind fun _ => pure value
      | _ => exact throw .misplaced

theorem initialValue (levels : Nat) {initializer initializer' : Node}
    (alike : initializer.Alike lines initializer') :
    Mirrors lines (initialValue levels initializer) (initialValue levels initializer') := by
  cases alike
  case absent => exact pure Value.nil
  all_goals
    refine evaluate levels ?_
    constructor <;> assumption

theorem perform (rounds levels : Nat) {node node' : Node} (alike : node.Alike lines node') :
    Mirrors lines (perform rounds levels node) (perform rounds levels node') := by
  induction levels generalizing node node' with
  | zero => exact throw .overNested
  | succ levels inductionHypothesis =>
      cases alike with
      | exprStmt exprs =>
          exact (trace _).bind fun _ => (evaluate levels exprs).bind fun _ => pure ()
      | printStmt exprs =>
          exact (trace _).bind fun _ => (evaluate levels exprs).bind fun value =>
            printLine value.display
      | varStmt names initializers =>
          exact (trace _).bind fun _ => (initialValue levels initializers).bind fun value =>
            declareVariable names value
      | blockStmt bodies =>
          exact (trace _).bind fun _ =>
            inOwnScope (inOrder (fun _ _ => inductionHypothesis) bodies)
      | ifStmt conditions thenBranches elseBranches =>
          rw [perform_ifStmt, perform_ifStmt]
          refine (trace _).bind fun _ => (evaluate levels conditions).bind fun outcome => ?_
          split
          · exact inductionHypothesis thenBranches
          · have branches := inductionHypothesis elseBranches
            cases elseBranches with
            | absent => exact pure ()
            | _ => exact branches
      | whileStmt conditions bodies =>
          exact (trace _).bind fun _ =>
            whileTruthy (evaluate levels conditions) (inductionHypothesis bodies) rounds
      | _ => exact (trace _).bind fun _ => throw .misplaced

end Mirrors

/-! ## Programs -/

/-- Problems that are told in the same words about lines that correspond.  Nesting
that is too deep may be told about any line. -/
inductive SameProblem (lines : Int → Int → Prop) :
    Option Diagnostic → Option Diagnostic → Prop where
  | none : SameProblem lines none none
  | some {problem problem' : Diagnostic}
    (alike : problem.Alike (fun line line' => problem.message = nestingMessage ∨ lines line line')
      problem') : SameProblem lines (some problem) (some problem')

/-- Two programs have ended with the same problem or were both out of rounds, and
have left machines that differ in their traces at most. -/
inductive SameEnd (lines : Int → Int → Prop) :
    EStateM.Result Abort Machine (Option Diagnostic) →
      EStateM.Result Abort Machine (Option Diagnostic) → Prop where
  | ended {problem problem' : Option Diagnostic} {after after' : Machine}
    (problems : SameProblem lines problem problem')
    (machines : after.untraced = after'.untraced) :
    SameEnd lines (.ok problem after) (.ok problem' after')
  | unfinished {after after' : Machine} (machines : after.untraced = after'.untraced) :
    SameEnd lines (.error .unfinished after) (.error .unfinished after')

theorem SameProblem.refl (problem : Option Diagnostic) : SameProblem Eq problem problem := by
  cases problem with
  | none => exact .none
  | some problem => exact .some ⟨rfl, .inr rfl, rfl, rfl⟩

/-- The same problem by way of another one. -/
theorem SameProblem.trans {first second third : Option Diagnostic}
    (problems : SameProblem Eq first second) (problems' : SameProblem lines second third) :
    SameProblem lines first third := by
  cases problems with
  | none => exact problems'
  | some alike =>
      cases problems' with
      | some alike' =>
          refine .some ⟨alike.stage.trans alike'.stage, ?_, alike.place.trans alike'.place,
            alike.message.trans alike'.message⟩
          rcases alike.line with nested | sameLine
          · exact Or.inl nested
          · rw [alike.message, sameLine]
            exact alike'.line

namespace SameEnd

variable {first second third : EStateM.Result Abort Machine (Option Diagnostic)}

theorem trans (ends : SameEnd Eq first second) (ends' : SameEnd lines second third) :
    SameEnd lines first third := by
  cases ends with
  | ended problems machines =>
      cases ends' with
      | ended problems' machines' =>
          exact .ended (problems.trans problems') (machines.trans machines')
  | unfinished machines =>
      cases ends' with
      | unfinished machines' => exact .unfinished (machines.trans machines')

/-- Two computations that are followed by others, where both go on. -/
theorem followedBy {run run' next next' : Run (Option Diagnostic)} {machine machine' : Machine}
    (ends : SameEnd Eq (run machine) (run' machine'))
    (goesOn : ∀ after after' : Machine, run machine = .ok none after →
      after.untraced = after'.untraced → SameEnd Eq (next after) (next' after')) :
    SameEnd Eq (followedBy run next machine) (followedBy run' next' machine') := by
  rw [followedBy_apply, followedBy_apply]
  generalize run machine = result, run' machine' = result' at ends goesOn
  cases ends with
  | ended problems machines =>
      cases problems with
      | none => exact goesOn _ _ rfl machines
      | some alike => exact .ended (.some alike) machines
  | unfinished machines => exact .unfinished machines

end SameEnd

theorem Abort.ToldAs.alike {statement statement' : Node} {abort abort' : Abort}
    {problem : Diagnostic} (told : abort.ToldAs statement problem)
    (aborts : abort.Alike lines abort') :
    ∃ problem', abort'.ToldAs statement' problem' ∧
      SameProblem lines (some problem) (some problem') := by
  cases told with
  | fault =>
      cases aborts with
      | fault correspond => exact ⟨_, .fault, .some ⟨rfl, .inr correspond, rfl, rfl⟩⟩
  | overNested =>
      cases aborts with
      | overNested => exact ⟨_, .overNested, .some ⟨rfl, .inl rfl, rfl, rfl⟩⟩

/-- Statements that are alike are stopped by the same problem at the same time. -/
theorem StopsWith.alike {rounds : Nat} {statements statements' : List Node}
    {machine after : Machine} {problem : Diagnostic}
    (stops : StopsWith limit rounds statements machine problem after)
    (alike : Node.AllAlike lines statements statements') :
    ∃ problem', StopsWith limit rounds statements' machine problem' after ∧
      SameProblem lines (some problem) (some problem') := by
  induction stops generalizing statements' with
  | @here _ _ machine _ _ _ aborts told =>
      cases alike with
      | cons first others =>
          have ends := Mirrors.perform rounds limit first machine
          rw [aborts] at ends
          generalize same : perform rounds limit _ machine = result at ends
          cases ends with
          | abort alike =>
              rcases told.alike alike with ⟨problem', told', problems⟩
              exact ⟨problem', .here same told', problems⟩
  | @later _ _ machine _ _ _ runs _ inductionHypothesis =>
      cases alike with
      | cons first others =>
          have ends := Mirrors.perform rounds limit first machine
          rw [runs] at ends
          generalize same : perform rounds limit _ machine = result at ends
          cases ends with
          | value =>
              rcases inductionHypothesis others with ⟨problem', stops, problems⟩
              exact ⟨problem', .later same stops, problems⟩

/-- Clean programs that are alike have the same end on the same machine between two
programs. -/
theorem runProgram_alike (limit rounds : Nat) {statements statements' : List Node}
    {machine : Machine} (canonical : Node.AreCanonical statements) (topLevel : TopLevel machine)
    (alike : Node.AllAlike lines statements statements') :
    SameEnd lines (runProgram limit rounds statements machine)
      (runProgram limit rounds statements' machine) := by
  have ends := Mirrors.inOrder (fun _ _ => Mirrors.perform rounds limit) alike machine
  rcases inOrder_cases limit rounds canonical topLevel with
    ⟨after, runs⟩ | ⟨problem, after, stops⟩ | ⟨after, aborts⟩
  · rw [runs] at ends
    generalize same : inOrder _ statements' machine = result at ends
    cases ends with
    | value =>
        rw [runProgram_of_inOrder runs, runProgram_of_inOrder same]
        exact .ended .none rfl
  · rcases stops.alike alike with ⟨problem', stops', problems⟩
    rcases stops.runProgram with ⟨told, run⟩
    rcases stops'.runProgram with ⟨told', run'⟩
    rw [run, run']
    exact .ended problems (by rw [Machine.untraced_note, Machine.untraced_note])
  · rw [aborts] at ends
    generalize same : inOrder _ statements' machine = result at ends
    cases ends with
    | abort alike =>
        cases alike with
        | unfinished =>
            rw [runProgram_of_unfinished aborts, runProgram_of_unfinished same]
            exact .unfinished rfl

end TreeWalker.Evaluation
