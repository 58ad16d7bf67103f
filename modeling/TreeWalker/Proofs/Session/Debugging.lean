import TreeWalker.Proofs.Evaluation.Tracing

/-!
# Debugging only adds to the trace

A run only ever adds lines to the trace, and none if no trace is wanted.  Apart from
the trace it does not depend on whether there is one.  So with tracing switched on a
run ends as it does with tracing switched off, on the same machine but for the lines
that were added.
-/

namespace TreeWalker

namespace Evaluation

/-! ## The trace grows -/

theorem append_lines (trace : Array String) (lines more : List String) :
    trace ++ lines ++ more = trace ++ (lines ++ more) := by
  apply Array.toList_inj.mp
  simp only [Array.toList_appendList, List.append_assoc]

/-- Between the machines lines were noted, or none if no trace is wanted. -/
structure Noted (machine after : Machine) : Prop where
  tracing : after.tracing = machine.tracing
  trace : ∃ lines, after.trace = (machine.note lines).trace

theorem tracing_note (machine : Machine) (lines : List String) :
    (machine.note lines).tracing = machine.tracing := by
  unfold Machine.note
  split <;> rfl

theorem trace_note_of_tracing {machine : Machine} (wanted : machine.tracing = true)
    (lines : List String) : (machine.note lines).trace = machine.trace ++ lines := by
  rw [Machine.note, if_pos wanted]

theorem trace_note_of_not_tracing {machine : Machine} (unwanted : machine.tracing = false)
    (lines : List String) : (machine.note lines).trace = machine.trace := by
  rw [Machine.note, if_neg (by simp [unwanted])]

namespace Noted

variable {machine middle after : Machine}

theorem refl (machine : Machine) : Noted machine machine := by
  refine ⟨rfl, [], ?_⟩
  cases wanted : machine.tracing with
  | true => rw [trace_note_of_tracing wanted, Array.appendList_nil]
  | false => rw [trace_note_of_not_tracing wanted]

theorem trans (first : Noted machine middle) (second : Noted middle after) :
    Noted machine after := by
  obtain ⟨lines, trace⟩ := first.trace
  obtain ⟨more, afterTrace⟩ := second.trace
  refine ⟨second.tracing.trans first.tracing, lines ++ more, ?_⟩
  cases wanted : machine.tracing with
  | true =>
      rw [afterTrace, trace_note_of_tracing (first.tracing.trans wanted), trace,
        trace_note_of_tracing wanted, trace_note_of_tracing wanted]
      exact append_lines _ _ _
  | false =>
      rw [afterTrace, trace_note_of_not_tracing (first.tracing.trans wanted), trace,
        trace_note_of_not_tracing wanted, trace_note_of_not_tracing wanted]

theorem note (machine : Machine) (lines : List String) : Noted machine (machine.note lines) :=
  ⟨tracing_note machine lines, lines, rfl⟩

/-- Scopes and printed lines are not noted. -/
theorem of_same (tracing : after.tracing = machine.tracing) (trace : after.trace = machine.trace) :
    Noted machine after :=
  ⟨tracing, trace ▸ (refl machine).trace⟩

end Noted

/-- Whatever a computation does to a machine, to the trace it only adds. -/
def OnlyNotes {α : Type} (run : Run α) : Prop :=
  ∀ machine, Noted machine (leftBy run machine)

namespace OnlyNotes

variable {α β : Type} {run : Run α} {next : α → Run β}

theorem pure (a : α) : OnlyNotes (pure a : Run α) :=
  .refl

theorem throw (abort : Abort) : OnlyNotes (throw abort : Run α) :=
  .refl

theorem bind (first : OnlyNotes run) (second : ∀ a, OnlyNotes (next a)) :
    OnlyNotes (run >>= next) := by
  intro machine
  have noted := first machine
  rw [leftBy] at noted
  rw [leftBy, bind_apply]
  generalize run machine = result at noted
  cases result with
  | ok a middle => exact noted.trans (second a middle)
  | error abort middle => exact noted

/-! ### Operations of the machine -/

theorem atToken (token : Token) (result : Except Fault α) : OnlyNotes (atToken token result) := by
  cases result with
  | ok a => exact pure a
  | error fault => exact throw _

theorem onScopes (result : Except Scope.Fault α) : OnlyNotes (onScopes result) := by
  cases result with
  | ok a => exact pure a
  | error fault => exact throw _

theorem note (lines : List String) : OnlyNotes (modify (·.note lines) : Run PUnit) :=
  fun machine => .note machine lines

theorem trace (line : String) : OnlyNotes (trace line) :=
  note [line]

theorem printLine (line : String) : OnlyNotes (printLine line) :=
  fun _ => .of_same rfl rfl

theorem readVariable (name : Token) : OnlyNotes (readVariable name) := by
  intro machine
  rw [leftBy, Evaluation.readVariable, get_bind_apply]
  cases machine.arena.lookup machine.current name.lexeme with
  | error fault => exact .refl machine
  | ok found => cases found <;> exact .refl machine

theorem writeVariable (name : Token) (value : Value) : OnlyNotes (writeVariable name value) := by
  intro machine
  rw [leftBy, Evaluation.writeVariable, get_bind_apply]
  cases machine.arena.update machine.current name.lexeme value with
  | error fault => exact .refl machine
  | ok found =>
      cases found with
      | none => exact .refl machine
      | some arena => exact .of_same rfl rfl

theorem declareVariable (name : Token) (value : Value) :
    OnlyNotes (declareVariable name value) := by
  intro machine
  rw [leftBy, Evaluation.declareVariable, get_bind_apply]
  cases machine.arena.declare machine.current name.lexeme value with
  | error fault => exact .refl machine
  | ok arena => exact .of_same rfl rfl

/-! ### Blocks -/

theorem enterScope : OnlyNotes enterScope := by
  intro machine
  rw [leftBy, Evaluation.enterScope, get_bind_apply]
  cases machine.arena.nest machine.current with
  | error fault => exact .refl machine
  | ok nested =>
      obtain ⟨handle, arena⟩ := nested
      -- The scope is open before its depth is told, and only the telling is noted.
      let entered : Machine := { machine with arena, current := handle }
      have opened : Noted machine entered := .of_same rfl rfl
      have told : OnlyNotes (if machine.tracing then do
          let depth ← Evaluation.onScopes (arena.depth handle)
          Evaluation.trace ("  Entered scope " ++ toString handle ++ " (depth " ++
            toString depth ++ ")")
          else Pure.pure () : Run Unit) := by
        split
        · exact (onScopes _).bind fun depth => trace _
        · exact pure ()
      exact opened.trans (told entered)

theorem leaveScope (outer : Scope.Handle) : OnlyNotes (leaveScope outer) := by
  intro machine
  rw [leftBy, Evaluation.leaveScope, get_bind_apply]
  change Noted machine (leftBy (Evaluation.onScopes (machine.arena.discard machine.current) >>= _)
    { machine with current := outer })
  cases machine.arena.discard machine.current with
  | error fault => exact .of_same rfl rfl
  | ok discarded =>
      let left : Machine := { machine with arena := discarded.2, current := outer }
      have closed : Noted machine left := .of_same rfl rfl
      exact closed.trans (trace ("  Restored scope " ++ toString outer) left)

theorem andFinally {body closing : Run Unit} (inside : OnlyNotes body)
    (closes : OnlyNotes closing) : OnlyNotes (andFinally body closing) := by
  intro machine
  have noted := inside machine
  rw [leftBy] at noted
  rw [leftBy, Evaluation.andFinally]
  generalize body machine = result at noted
  cases result with
  | ok a middle => exact noted.trans (closes middle)
  | error abort middle =>
      have further := closes middle
      rw [leftBy] at further
      dsimp only at noted ⊢
      generalize closing middle = closed at further
      cases closed <;> exact noted.trans further

theorem inOwnScope {body : Run Unit} (inside : OnlyNotes body) :
    OnlyNotes (inOwnScope body) := by
  intro machine
  rw [leftBy, Evaluation.inOwnScope, get_bind_apply]
  exact (enterScope.bind fun _ => andFinally inside (leaveScope machine.current)) machine

/-! ### Trees -/

theorem whileTruthy {test : Run Value} {body : Run Unit} (tests : OnlyNotes test)
    (runs : OnlyNotes body) (rounds : Nat) : OnlyNotes (whileTruthy test body rounds) := by
  induction rounds with
  | zero => exact throw _
  | succ rounds inductionHypothesis =>
      refine tests.bind fun outcome => ?_
      split
      · exact runs.bind fun _ => inductionHypothesis
      · exact pure ()

theorem inOrder {run : Node → Run Unit} (runs : ∀ statement, OnlyNotes (run statement))
    (statements : List Node) : OnlyNotes (inOrder run statements) := by
  induction statements with
  | nil => exact pure ()
  | cons statement statements inductionHypothesis =>
      exact (runs statement).bind fun _ => inductionHypothesis

theorem evaluate (levels : Nat) (node : Node) : OnlyNotes (evaluate levels node) := by
  induction levels generalizing node with
  | zero => exact throw _
  | succ levels inductionHypothesis =>
      cases node with
      | literal value => exact pure value
      | grouping inner => exact inductionHypothesis inner
      | unary operator operand =>
          exact (inductionHypothesis operand).bind fun _ => atToken operator _
      | binary left operator right =>
          exact (inductionHypothesis left).bind fun _ =>
            (inductionHypothesis right).bind fun _ => atToken operator _
      | logical left operator right =>
          refine (inductionHypothesis left).bind fun value => ?_
          split
          · exact pure value
          · exact inductionHypothesis right
      | reference name => exact readVariable name
      | assign name value =>
          exact (inductionHypothesis value).bind fun value =>
            (writeVariable name value).bind fun _ => pure value
      | _ => exact throw _

theorem initialValue (levels : Nat) (initializer : Node) :
    OnlyNotes (initialValue levels initializer) := by
  cases initializer with
  | absent => exact pure Value.nil
  | _ => exact evaluate levels _

theorem perform (rounds levels : Nat) (node : Node) : OnlyNotes (perform rounds levels node) := by
  induction levels generalizing node with
  | zero => exact throw _
  | succ levels inductionHypothesis =>
      cases node with
      | exprStmt expr =>
          exact (trace _).bind fun _ => (evaluate levels expr).bind fun _ => pure ()
      | printStmt expr =>
          exact (trace _).bind fun _ => (evaluate levels expr).bind fun value =>
            printLine value.display
      | varStmt name initializer =>
          exact (trace _).bind fun _ => (initialValue levels initializer).bind fun value =>
            declareVariable name value
      | blockStmt body =>
          exact (trace _).bind fun _ => inOwnScope (inOrder inductionHypothesis body)
      | ifStmt condition thenBranch elseBranch =>
          rw [perform_ifStmt]
          refine (trace _).bind fun _ => (evaluate levels condition).bind fun outcome => ?_
          split
          · exact inductionHypothesis thenBranch
          · cases elseBranch with
            | absent => exact pure ()
            | _ => exact inductionHypothesis _
      | whileStmt condition body =>
          exact (trace _).bind fun _ =>
            whileTruthy (evaluate levels condition) (inductionHypothesis body) rounds
      | _ => exact (trace _).bind fun _ => throw _

/-! ### Programs and sessions -/

theorem stopWith (line : Int) (message noted : String) :
    OnlyNotes (stopWith line message noted) :=
  (trace _).bind fun _ => pure _

theorem diagnose (statement : Node) (abort : Abort) : OnlyNotes (diagnose statement abort) := by
  cases abort with
  | fault | overNested => exact stopWith _ _ _
  | _ => exact throw _

theorem runProgram (limit rounds : Nat) (statements : List Node) :
    OnlyNotes (runProgram limit rounds statements) := by
  induction statements with
  | nil => exact pure none
  | cons statement statements inductionHypothesis =>
      intro machine
      have noted := perform rounds limit statement machine
      rw [leftBy] at noted
      rw [leftBy, runProgram_cons]
      generalize Evaluation.perform rounds limit statement machine = result at noted
      cases result with
      | ok a middle => exact noted.trans (inductionHypothesis middle)
      | error abort middle => exact noted.trans (diagnose statement abort middle)

theorem session (limits : Limits) (rounds : Nat) (treatment : Treatment) (source : List Char) :
    OnlyNotes (Session.run limits rounds treatment source) := by
  refine (note _).bind fun _ => ?_
  split
  · exact (runProgram limits.running rounds _).bind fun _ => pure _
  · exact pure _

theorem call (call : Call) (machine : Machine) : Noted machine (call.leave machine) := by
  cases call with
  | interpret levels rounds statements => exact runProgram levels rounds statements machine
  | evaluate levels expr => exact evaluate levels expr machine
  | source limits rounds treatment text => exact session limits rounds treatment text machine

end OnlyNotes

/-! ## Tracing switched on -/

/-- The machine with tracing switched on, and with more lines in its trace. -/
def Machine.aloud (machine : Machine) (lines : List String) : Machine :=
  { machine with trace := machine.trace ++ lines, tracing := true }

/-- The end of a run, with tracing switched on and with more lines in the trace. -/
def aloudEnd {α : Type} (lines : List String) :
    EStateM.Result Abort Machine α → EStateM.Result Abort Machine α
  | .ok a after => .ok a (after.aloud lines)
  | .error abort after => .error abort (after.aloud lines)

theorem aloud_nil (machine : Machine) :
    Machine.aloud { machine with tracing := false } [] = { machine with tracing := true } := by
  rw [Machine.aloud, Array.appendList_nil]

theorem Standing.aloud {machine : Machine} (standing : Standing machine) (lines : List String) :
    Standing (machine.aloud lines) :=
  ⟨standing.ordered, standing.anchored⟩

/-- A machine is given by what it is without its trace, and by its trace. -/
theorem eq_aloud {machine machine' : Machine} {lines : List String}
    (same : machine.untraced = machine'.untraced) (tracing : machine.tracing = true)
    (trace : machine.trace = machine'.trace ++ lines) : machine = machine'.aloud lines := by
  obtain ⟨arena, current, output, _, _⟩ := machine
  simp only [Machine.untraced, Machine.mk.injEq] at same
  obtain ⟨rfl, rfl, rfl, -, -⟩ := same
  cases tracing
  cases trace
  rfl

section Aloud

variable {machine after after' : Machine} {earlier : List String}

/-- What is left of two machines that began alike, one of them with tracing. -/
theorem Noted.exists_aloud (quiet : machine.tracing = false)
    (noted : Noted (machine.aloud earlier) after') (noted' : Noted machine after)
    (same : after'.untraced = after.untraced) :
    ∃ more, after' = after.aloud (earlier ++ more) := by
  obtain ⟨more, added⟩ := noted.trace
  obtain ⟨unseen, untouched⟩ := noted'.trace
  rw [trace_note_of_not_tracing quiet] at untouched
  refine ⟨more, eq_aloud same noted.tracing ?_⟩
  rw [added, trace_note_of_tracing rfl, untouched, ← append_lines]
  rfl

/-- With tracing a computation ends as without it, and only adds to the trace. -/
theorem OnlyNotes.exists_aloudEnd {α : Type} {run : Run α} (notes : OnlyNotes run)
    (traceless : Traceless run) (standing : Standing machine) (quiet : machine.tracing = false)
    (earlier : List String) :
    ∃ more, run (machine.aloud earlier) = aloudEnd (earlier ++ more) (run machine) := by
  have same := traceless.untracedEnd_eq (standing.aloud earlier) standing rfl
  have noted := notes (machine.aloud earlier)
  have noted' := notes machine
  rw [leftBy] at noted noted'
  generalize run (machine.aloud earlier) = traced at same noted
  generalize run machine = untraced at same noted'
  -- Without their traces the ends are the same, so both are values or both are aborts.
  cases traced <;> cases untraced <;> simp only [untracedEnd, reduceCtorEq] at same
  · injection same with sameValue sameMachine
    obtain ⟨more, rfl⟩ := noted.exists_aloud quiet noted' sameMachine
    exact ⟨more, by rw [sameValue, aloudEnd]⟩
  · injection same with sameAbort sameMachine
    obtain ⟨more, rfl⟩ := noted.exists_aloud quiet noted' sameMachine
    exact ⟨more, by rw [sameAbort, aloudEnd]⟩

theorem leftBy_aloud {α : Type} {run : Run α} (notes : OnlyNotes run) (traceless : Traceless run)
    (standing : Standing machine) (quiet : machine.tracing = false) (earlier : List String) :
    ∃ more, leftBy run (machine.aloud earlier) = (leftBy run machine).aloud (earlier ++ more) := by
  obtain ⟨more, ends⟩ := notes.exists_aloudEnd traceless standing quiet earlier
  refine ⟨more, ?_⟩
  rw [leftBy, ends, leftBy]
  cases run machine <;> rfl

theorem Call.leave_aloud (call : Call) (standing : Standing machine)
    (quiet : machine.tracing = false) (earlier : List String) :
    ∃ more, call.leave (machine.aloud earlier) = (call.leave machine).aloud (earlier ++ more) := by
  cases call with
  | interpret levels rounds statements =>
      exact leftBy_aloud (.runProgram levels rounds statements)
        (.runProgram levels rounds statements) standing quiet earlier
  | evaluate levels expr =>
      exact leftBy_aloud (.evaluate levels expr) (.evaluate levels expr) standing quiet earlier
  | source limits rounds treatment text =>
      exact leftBy_aloud (.session limits rounds treatment text)
        (.session limits rounds treatment text) standing quiet earlier

/-- A whole session with tracing is one without it, with lines added to its trace. -/
theorem leaveAll_aloud (calls : List Call) (standing : Standing machine)
    (quiet : machine.tracing = false) (earlier : List String) :
    ∃ more, leaveAll calls (machine.aloud earlier) =
      (leaveAll calls machine).aloud (earlier ++ more) := by
  induction calls generalizing machine earlier with
  | nil => exact ⟨[], by rw [List.append_nil]; rfl⟩
  | cons call calls inductionHypothesis =>
      obtain ⟨lines, first⟩ := call.leave_aloud standing quiet earlier
      obtain ⟨more, others⟩ := inductionHypothesis ((call.restored standing).standing standing)
        ((OnlyNotes.call call machine).tracing.trans quiet) (earlier ++ lines)
      refine ⟨lines ++ more, ?_⟩
      calc leaveAll (call :: calls) (machine.aloud earlier)
          = leaveAll calls ((call.leave machine).aloud (earlier ++ lines)) :=
            congrArg (leaveAll calls) first
        _ = (leaveAll calls (call.leave machine)).aloud (earlier ++ lines ++ more) := others
        _ = (leaveAll (call :: calls) machine).aloud (earlier ++ (lines ++ more)) := by
            rw [List.append_assoc]
            rfl

end Aloud

end Evaluation

namespace Session

open Evaluation

/-- In a session with any past, tracing adds lines to the trace and changes nothing else:
neither the outcome of a source nor what is printed, bound and left current.  Without it
the trace stays as it is.  No scope is missing when its depth is told. -/
theorem tracing_only_adds (calls : List Call) (tracing : Bool) (limits : Limits) (rounds : Nat)
    (treatment : Treatment) (source : List Char) :
    let machine := leaveAll calls (.initial tracing)
    let silent : Machine := { machine with tracing := false }
    let traced : Machine := { machine with tracing := true }
    (∃ lines, run limits rounds treatment source traced =
        aloudEnd lines (run limits rounds treatment source silent)) ∧
      (leftBy (run limits rounds treatment source) silent).trace = machine.trace ∧
      (∀ fault after, run limits rounds treatment source traced ≠ .error (.scope fault) after) ∧
      ∃ lines, leaveAll calls (.initial true) = (leaveAll calls (.initial false)).aloud lines := by
  intro machine silent traced
  have standing : Standing machine := (restored_leaveAll calls (standing_initial tracing)).standing
    (standing_initial tracing)
  have standing' : Standing silent := ⟨standing.ordered, standing.anchored⟩
  refine ⟨?_, ?_, ?_, ?_⟩
  · have ends := (OnlyNotes.session limits rounds treatment source).exists_aloudEnd
      (.session limits rounds treatment source) standing' rfl []
    rwa [aloud_nil] at ends
  · obtain ⟨lines, untouched⟩ := (OnlyNotes.session limits rounds treatment source silent).trace
    rw [untouched, trace_note_of_not_tracing rfl]
  · intro fault after aborts
    have ends := Restores.session limits rounds treatment source traced
      ⟨standing.ordered, standing.anchored⟩
    rw [aborts] at ends
    cases ends with
    | abort _ live => exact live fault rfl
  · have whole := leaveAll_aloud calls (standing_initial false) rfl []
    rwa [show Machine.aloud (.initial false) [] = .initial true from rfl] at whole

end Session

end TreeWalker
