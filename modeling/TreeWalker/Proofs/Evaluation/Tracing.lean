import TreeWalker.Proofs.Evaluation.Restoration

/-!
# Nothing depends on the trace

Leaving out the trace of a machine before a run, or after it, comes to the same.
So two machines that differ in their traces only run alike, and a machine that
keeps no trace never gets one.  The depth of a scope, which is computed for the
trace only, cannot fail where the current scope is anchored.
-/

namespace TreeWalker.Evaluation

/-- The machine without its trace, and with tracing switched off. -/
def Machine.untraced (machine : Machine) : Machine :=
  { machine with trace := #[], tracing := false }

@[simp]
theorem Machine.untraced_note (machine : Machine) (lines : List String) :
    (machine.note lines).untraced = machine.untraced := by
  unfold note
  split <;> rfl

@[simp]
theorem Machine.note_untraced (machine : Machine) (lines : List String) :
    machine.untraced.note lines = machine.untraced :=
  rfl

/-- The end of a run, with the trace left out. -/
def untracedEnd {α : Type} : EStateM.Result Abort Machine α → EStateM.Result Abort Machine α
  | .ok a after => .ok a after.untraced
  | .error abort after => .error abort after.untraced

/-- The trace may as well be left out before the computation as after it. -/
def Traceless {α : Type} (run : Run α) : Prop :=
  ∀ machine, Standing machine → run machine.untraced = untracedEnd (run machine)

namespace Traceless

variable {α β : Type} {run : Run α} {next : α → Run β}

theorem pure (a : α) : Traceless (pure a : Run α) :=
  fun _ _ => rfl

theorem throw (abort : Abort) : Traceless (throw abort : Run α) :=
  fun _ _ => rfl

theorem bind (restores : Restores run) (first : Traceless run) (second : ∀ a, Traceless (next a)) :
    Traceless (run >>= next) := by
  intro machine standing
  rw [bind_apply, bind_apply, first machine standing]
  have ends := restores machine standing
  generalize run machine = result at ends
  cases ends with
  | value restored => exact second _ _ (restored.standing standing)
  | abort => rfl

/-! ## Operations of the machine -/

theorem note (lines : List String) : Traceless (modify (·.note lines) : Run PUnit) := by
  intro machine _
  change EStateM.Result.ok _ (machine.untraced.note lines) = .ok _ (machine.note lines).untraced
  rw [Machine.note_untraced, Machine.untraced_note]

theorem atToken (token : Token) (result : Except Fault α) : Traceless (atToken token result) := by
  cases result with
  | ok a => exact pure a
  | error fault => exact throw _

theorem onScopes (result : Except Scope.Fault α) : Traceless (onScopes result) := by
  cases result with
  | ok a => exact pure a
  | error fault => exact throw _

theorem trace (line : String) : Traceless (trace line) :=
  note [line]

theorem printLine (line : String) : Traceless (printLine line) :=
  fun _ _ => rfl

theorem readVariable (name : Token) : Traceless (readVariable name) := by
  intro machine _
  rw [Evaluation.readVariable, get_bind_apply, get_bind_apply]
  change (Evaluation.onScopes (machine.arena.lookup machine.current name.lexeme) >>= _) _ = _
  cases machine.arena.lookup machine.current name.lexeme with
  | error fault => rfl
  | ok found => cases found <;> rfl

theorem writeVariable (name : Token) (value : Value) : Traceless (writeVariable name value) := by
  intro machine _
  rw [Evaluation.writeVariable, get_bind_apply, get_bind_apply]
  change (Evaluation.onScopes (machine.arena.update machine.current name.lexeme value) >>= _) _ = _
  cases machine.arena.update machine.current name.lexeme value with
  | error fault => rfl
  | ok found => cases found <;> rfl

theorem declareVariable (name : Token) (value : Value) :
    Traceless (declareVariable name value) := by
  intro machine _
  rw [Evaluation.declareVariable, get_bind_apply, get_bind_apply]
  change (Evaluation.onScopes (machine.arena.declare machine.current name.lexeme value) >>= _) _ = _
  cases machine.arena.declare machine.current name.lexeme value with
  | error fault => rfl
  | ok arena => rfl

/-! ## Blocks -/

/-- The scope is opened whether its depth is told or not. -/
theorem enterScope : Traceless enterScope := by
  intro machine standing
  obtain ⟨arena, told, nests, _, enters⟩ := Restores.enterScope_standing standing
  have alike : Standing machine.untraced := ⟨standing.ordered, standing.anchored⟩
  obtain ⟨arena', told', nests', _, enters'⟩ := Restores.enterScope_standing alike
  obtain ⟨_, rfl⟩ := Prod.mk.inj (Except.ok.inj (nests.symm.trans nests'))
  rw [enters, enters', untracedEnd, Machine.untraced_note]
  rfl

theorem leaveScope (outer : Scope.Handle) (machine : Machine) :
    leaveScope outer machine.untraced = untracedEnd (leaveScope outer machine) := by
  rw [Evaluation.leaveScope, get_bind_apply, get_bind_apply]
  change (Evaluation.onScopes (machine.arena.discard machine.current) >>= _) _ =
    untracedEnd ((Evaluation.onScopes (machine.arena.discard machine.current) >>= _) _)
  cases machine.arena.discard machine.current with
  | error fault => rfl
  | ok discarded =>
      let left : Machine := { machine with arena := discarded.2, current := outer }
      change EStateM.Result.ok () (left.untraced.note _) = .ok () (left.note _).untraced
      rw [Machine.note_untraced, Machine.untraced_note]

theorem andFinally {body closing : Run Unit} {machine : Machine}
    (inside : body machine.untraced = untracedEnd (body machine))
    (closes : ∀ after : Machine, closing after.untraced = untracedEnd (closing after)) :
    andFinally body closing machine.untraced = untracedEnd (andFinally body closing machine) := by
  rw [Evaluation.andFinally, Evaluation.andFinally, inside]
  cases body machine with
  | ok a after => exact closes after
  | error abort after =>
      simp only [untracedEnd, closes after]
      cases closing after <;> rfl

theorem inOwnScope {body : Run Unit} (inside : Traceless body) : Traceless (inOwnScope body) := by
  intro machine standing
  obtain ⟨arena, told, _, entered, enters⟩ := Restores.enterScope_standing standing
  have deeper := (entered.note [told]).standing standing
  have enters' := enterScope machine standing
  rw [enters, untracedEnd] at enters'
  rw [Restores.inOwnScope_apply enters, Restores.inOwnScope_apply enters']
  exact andFinally (inside _ deeper) (leaveScope machine.current)

/-! ## Trees -/

theorem whileTruthy {test : Run Value} {body : Run Unit} (testRestores : Restores test)
    (tests : Traceless test) (bodyRestores : Restores body) (runs : Traceless body)
    (rounds : Nat) : Traceless (whileTruthy test body rounds) := by
  induction rounds with
  | zero => exact throw _
  | succ rounds inductionHypothesis =>
      refine tests.bind testRestores fun outcome => ?_
      split
      · exact runs.bind bodyRestores fun _ => inductionHypothesis
      · exact pure ()

theorem inOrder {run : Node → Run Unit} (restores : ∀ statement, Restores (run statement))
    (runs : ∀ statement, Traceless (run statement)) (statements : List Node) :
    Traceless (inOrder run statements) := by
  induction statements with
  | nil => exact pure ()
  | cons statement statements inductionHypothesis =>
      exact (runs statement).bind (restores statement) fun _ => inductionHypothesis

theorem evaluate (levels : Nat) (node : Node) : Traceless (evaluate levels node) := by
  induction levels generalizing node with
  | zero => exact throw _
  | succ levels inductionHypothesis =>
      have restores := Restores.evaluate levels
      cases node with
      | literal value => exact pure value
      | grouping inner => exact inductionHypothesis inner
      | unary operator operand =>
          exact (inductionHypothesis operand).bind (restores operand) fun _ => atToken operator _
      | binary left operator right =>
          exact (inductionHypothesis left).bind (restores left) fun _ =>
            (inductionHypothesis right).bind (restores right) fun _ => atToken operator _
      | logical left operator right =>
          refine (inductionHypothesis left).bind (restores left) fun value => ?_
          split
          · exact pure value
          · exact inductionHypothesis right
      | reference name => exact readVariable name
      | assign name value =>
          exact (inductionHypothesis value).bind (restores value) fun value =>
            (writeVariable name value).bind (Restores.writeVariable name value) fun _ => pure value
      | _ => exact throw _

theorem initialValue (levels : Nat) (initializer : Node) :
    Traceless (initialValue levels initializer) := by
  cases initializer with
  | absent => exact pure Value.nil
  | _ => exact evaluate levels _

theorem perform (rounds levels : Nat) (node : Node) : Traceless (perform rounds levels node) := by
  induction levels generalizing node with
  | zero => exact throw _
  | succ levels inductionHypothesis =>
      have restores := Restores.evaluate levels
      cases node with
      | exprStmt expr =>
          exact (trace _).bind (.trace _) fun _ =>
            (evaluate levels expr).bind (restores expr) fun _ => pure ()
      | printStmt expr =>
          exact (trace _).bind (.trace _) fun _ =>
            (evaluate levels expr).bind (restores expr) fun value => printLine value.display
      | varStmt name initializer =>
          exact (trace _).bind (.trace _) fun _ =>
            (initialValue levels initializer).bind (.initialValue levels initializer) fun value =>
              declareVariable name value
      | blockStmt body =>
          exact (trace _).bind (.trace _) fun _ =>
            inOwnScope (inOrder (Restores.perform rounds levels) inductionHypothesis body)
      | ifStmt condition thenBranch elseBranch =>
          rw [perform_ifStmt]
          refine (trace _).bind (.trace _) fun _ =>
            (evaluate levels condition).bind (restores condition) fun outcome => ?_
          split
          · exact inductionHypothesis thenBranch
          · cases elseBranch with
            | absent => exact pure ()
            | _ => exact inductionHypothesis _
      | whileStmt condition body =>
          exact (trace _).bind (.trace _) fun _ =>
            whileTruthy (restores condition) (evaluate levels condition)
              (Restores.perform rounds levels body) (inductionHypothesis body) rounds
      | _ => exact (trace _).bind (.trace _) fun _ => throw _

/-! ## Programs and sessions -/

theorem stopWith (line : Int) (message noted : String) :
    Traceless (stopWith line message noted) :=
  (trace _).bind (.trace _) fun _ => pure _

theorem diagnose (statement : Node) (abort : Abort) : Traceless (diagnose statement abort) := by
  cases abort with
  | fault | overNested => exact stopWith _ _ _
  | _ => exact throw _

theorem runProgram (limit rounds : Nat) (statements : List Node) :
    Traceless (runProgram limit rounds statements) := by
  induction statements with
  | nil => exact pure none
  | cons statement statements inductionHypothesis =>
      intro machine standing
      have ends := Restores.perform rounds limit statement machine standing
      rw [runProgram_cons, runProgram_cons, perform rounds limit statement machine standing]
      generalize Evaluation.perform rounds limit statement machine = result at ends
      cases ends with
      | value restored => exact inductionHypothesis _ (restored.standing standing)
      | abort restored => exact diagnose statement _ _ (restored.standing standing)

theorem session (limits : Limits) (rounds : Nat) (treatment : Treatment) (source : List Char) :
    Traceless (Session.run limits rounds treatment source) := by
  refine (note _).bind (.note _) fun _ => ?_
  split
  · exact (runProgram limits.running rounds _).bind (.runProgram limits.running rounds _)
      fun _ => pure _
  · exact pure _

end Traceless

/-! ## Machines that differ in their traces -/

/-- A machine that keeps no trace and has none is not changed by leaving it out. -/
theorem untraced_eq_self {machine : Machine} (quiet : machine.tracing = false)
    (empty : machine.trace = #[]) : machine.untraced = machine := by
  rw [Machine.untraced, ← quiet, ← empty]

/-- Machines that differ in their traces only end alike, apart from their traces. -/
theorem Traceless.untracedEnd_eq {α : Type} {run : Run α} (traceless : Traceless run)
    {machine machine' : Machine} (standing : Standing machine) (standing' : Standing machine')
    (same : machine.untraced = machine'.untraced) :
    untracedEnd (run machine) = untracedEnd (run machine') := by
  rw [← traceless machine standing, same, traceless machine' standing']

/-- What keeps no trace and has none never gets one. -/
theorem Traceless.trace_leftBy {α : Type} {run : Run α} (traceless : Traceless run)
    {machine : Machine} (standing : Standing machine) (quiet : machine.tracing = false)
    (empty : machine.trace = #[]) : (leftBy run machine).trace = #[] := by
  have same := traceless machine standing
  rw [untraced_eq_self quiet empty] at same
  rw [leftBy, same]
  cases run machine <;> rfl

end TreeWalker.Evaluation
