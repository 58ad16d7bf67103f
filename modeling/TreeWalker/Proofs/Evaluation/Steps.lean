import TreeWalker.Proofs.Evaluation.Calls
import TreeWalker.Proofs.Scope.Surroundings
import TreeWalker.Proofs.Tree.Parts
import TreeWalker.Proofs.Tree.Names

/-!
# What the steps of a run keep up

A run changes a machine in a few ways only: it notes and prints lines, gives a variable
another value, declares one, opens a scope and discards it again.  A relation between the
machine at the start of a run and the one at its end holds, however the run has ended, if
each of these steps keeps it up.  For an expression it is enough to look at the one
step that gives a variable another value.

A statement may be known to declare nothing in the scope it runs in.  Then declarations are
made only inside the blocks in it, and a relation may allow them there and not here.
-/

namespace TreeWalker.Evaluation

open Scope (Handle)

variable {α β : Type}

/-! ## Steps -/

namespace Machine

/-- The machine in a new scope inside its current one. -/
def inside (machine : Machine) : Machine :=
  { machine with
    arena := machine.arena.opened machine.current
    current := machine.arena.next }

/-- The machine back in another scope, with the current one discarded. -/
def outside (machine : Machine) (outer : Handle) : Machine :=
  { machine with
    arena := machine.arena.without machine.current
    current := outer }

end Machine

/-- From the machines that are ready, a run leads to machines they are related to, however
it ends. -/
def Keeps (ready : Machine → Prop) (relates : Machine → Machine → Prop) (run : Run α) : Prop :=
  ∀ machine, ready machine → relates machine (leftBy run machine)

/-- A relation between machines passes along a run. -/
structure Passes (ready : Machine → Prop) (relates : Machine → Machine → Prop) : Prop where
  refl {machine : Machine} (isReady : ready machine) : relates machine machine
  trans {machine middle after : Machine} (first : relates machine middle)
    (second : relates middle after) : relates machine after
  onward {machine after : Machine} (isReady : ready machine) (related : relates machine after) :
    ready after

/-- A relation is kept up by the step that gives a variable with a certain name another
value. -/
structure ValueLaw (assignable : String → Prop) (ready : Machine → Prop)
    (relates : Machine → Machine → Prop) : Prop extends Passes ready relates where
  assign {machine : Machine} {name : String} {target : Handle} (value : Value)
    (isReady : ready machine) (isAssignable : assignable name)
    (resolves : machine.arena.resolve machine.current name = .ok (some target)) :
    relates machine { machine with arena := machine.arena.bindAt target name value }

/-- A relation is kept up by every step.  There is one for a scope in which nothing is
declared, and one for a scope in which this may happen. -/
structure EffectLaw (ready : Machine → Prop) (relates : Prop → Machine → Machine → Prop) :
    Prop where
  values (closed : Prop) : ValueLaw (fun _ => True) ready (relates closed)
  standing {machine : Machine} (isReady : ready machine) : Standing machine
  restored {closed : Prop} {machine after : Machine} (related : relates closed machine after) :
    Restored machine after
  note {machine : Machine} (closed : Prop) (lines : List String) (isReady : ready machine) :
    relates closed machine (machine.note lines)
  print {machine : Machine} (closed : Prop) (line : String) (isReady : ready machine) :
    relates closed machine (machine.print line)
  declare {closed : Prop} {machine : Machine} (name : String) (value : Value) (isOpen : ¬ closed)
    (isReady : ready machine) :
    relates closed machine { machine with
      arena := machine.arena.bindAt machine.current name value }
  inside {machine : Machine} (isReady : ready machine) : ready machine.inside
  outside {machine after : Machine} (closed : Prop) (isReady : ready machine)
    (related : relates False machine.inside after) :
    relates closed machine (after.outside machine.current)

/-! ## What a run leaves behind -/

theorem leftBy_of_ok {run : Run α} {machine after : Machine} {a : α}
    (runs : run machine = .ok a after) : leftBy run machine = after := by
  rw [leftBy, runs]

theorem leftBy_bind_of_ok {run : Run α} {next : α → Run β} {machine after : Machine} {a : α}
    (runs : run machine = .ok a after) :
    leftBy (run >>= next) machine = leftBy (next a) after := by
  rw [leftBy, bind_apply_ok runs, leftBy]

theorem leftBy_bind_of_error {run : Run α} {next : α → Run β} {machine after : Machine}
    {abort : Abort} (fails : run machine = .error abort after) :
    leftBy (run >>= next) machine = leftBy run machine := by
  rw [leftBy, bind_apply_error fails, leftBy, fails]

@[simp]
theorem leftBy_atToken (token : Token) (result : Except Fault α) (machine : Machine) :
    leftBy (atToken token result) machine = machine := by
  cases result <;> rfl

@[simp]
theorem leftBy_readVariable (name : Token) (machine : Machine) :
    leftBy (readVariable name) machine = machine := by
  rw [leftBy, readVariable, get_bind_apply]
  cases machine.arena.lookup machine.current name.lexeme with
  | error fault => rfl
  | ok found => cases found <;> rfl

/-- A variable is given another value in the scope in which it is found, if there is one. -/
theorem leftBy_writeVariable (name : Token) (value : Value) (machine : Machine) :
    leftBy (writeVariable name value) machine = machine ∨
      ∃ target, machine.arena.resolve machine.current name.lexeme = .ok (some target) ∧
        leftBy (writeVariable name value) machine =
          { machine with arena := machine.arena.bindAt target name.lexeme value } := by
  rw [leftBy, writeVariable, get_bind_apply]
  cases resolves : machine.arena.resolve machine.current name.lexeme with
  | error fault =>
      rw [Scope.Arena.update, resolves]
      exact .inl rfl
  | ok found =>
      rw [Scope.Arena.update_of_resolve resolves]
      cases found with
      | none => exact .inl rfl
      | some target => exact .inr ⟨target, rfl, rfl⟩

theorem leftBy_declareVariable (name : Token) (value : Value) {machine : Machine}
    (standing : Standing machine) :
    leftBy (declareVariable name value) machine =
      { machine with arena := machine.arena.bindAt machine.current name.lexeme value } := by
  have live := Scope.Arena.isLive_iff.mpr standing.anchored.exists_mem
  rw [leftBy, declareVariable, get_bind_apply, Scope.Arena.declare, if_pos live]
  rfl

theorem enterScope_eq_inside {machine : Machine} (standing : Standing machine) :
    ∃ told, enterScope machine = .ok () (machine.inside.note [told]) := by
  have live := Scope.Arena.isLive_iff.mpr standing.anchored.exists_mem
  obtain ⟨arena, told, nests, _, enters⟩ := Restores.enterScope_standing standing
  have opens : arena = machine.arena.opened machine.current :=
    (Prod.mk.inj (Except.ok.inj (nests.symm.trans (Scope.Arena.nest_of_live live)))).2
  subst opens
  exact ⟨told, enters⟩

theorem Machine.inside_entered (machine : Machine) :
    Restores.Entered machine machine.inside where
  current := rfl
  links := rfl
  next := rfl

theorem entered_of_enterScope {machine entered : Machine} (standing : Standing machine)
    (enters : enterScope machine = .ok () entered) : Restores.Entered machine entered := by
  obtain ⟨told, opens⟩ := enterScope_eq_inside standing
  rw [enters] at opens
  cases opens
  exact machine.inside_entered.note [told]

/-- The scope of a block is discarded, and this is noted. -/
theorem leaveScope_eq_outside {machine entered after : Machine} (standing : Standing machine)
    (opened : Restores.Entered machine entered) (restored : Restored entered after) :
    leaveScope machine.current after = .ok () ((after.outside machine.current).note
      ["  Restored scope " ++ toString machine.current]) := by
  have current := restored.current.trans opened.current
  have inner : machine.arena.next ≠ Scope.globalHandle := Int.ne_of_gt standing.ordered.global
  have live : after.arena.isLive machine.arena.next = true := by
    rw [Scope.Arena.isLive_iff, restored.links, opened.links]
    exact ⟨_, List.mem_cons_self⟩
  obtain ⟨entry, live⟩ := Option.isSome_iff_exists.mp live
  rw [leaveScope, get_bind_apply]
  change (onScopes (after.arena.discard after.current) >>= _) _ = _
  rw [Machine.outside, current, Scope.Arena.discard_of_live live inner]
  rfl

/-- Without the scope of a block, the scopes are those from before it. -/
theorem Restored.outside {machine after : Machine} (standing : Standing machine)
    (restored : Restored machine.inside after) :
    Restored machine (after.outside machine.current) := by
  obtain ⟨left, leaves, back⟩ :=
    Restores.leaveScope_restored standing machine.inside_entered restored
  rw [leaveScope_eq_outside standing machine.inside_entered restored] at leaves
  cases leaves
  obtain ⟨current, links, next⟩ := back
  rw [Machine.note_current] at current
  rw [Machine.note_arena] at links next
  exact ⟨current, links, next⟩

/-- A computation in a scope of its own leaves behind what it has left inside, without that
scope. -/
theorem leftBy_inOwnScope {body : Run Unit} {machine entered : Machine}
    (standing : Standing machine) (opened : Restores.Entered machine entered)
    (enters : enterScope machine = .ok () entered)
    (restored : Restored entered (leftBy body entered)) :
    leftBy (inOwnScope body) machine =
      ((leftBy body entered).outside machine.current).note
        ["  Restored scope " ++ toString machine.current] := by
  have leaves := leaveScope_eq_outside standing opened restored
  rw [leftBy, Restores.inOwnScope_apply enters, andFinally]
  unfold leftBy at leaves ⊢
  cases ends : body entered with
  | ok _ after | error _ after =>
      simp only [ends] at leaves
      simp only [leaves]

/-! ## Sequences -/

namespace Keeps

variable {ready : Machine → Prop} {relates : Machine → Machine → Prop} {run : Run α}
  {next : α → Run β}

section Sequences

variable (passes : Passes ready relates)

include passes

theorem of_unchanged (unchanged : ∀ machine, leftBy run machine = machine) :
    Keeps ready relates run := by
  intro machine isReady
  rw [unchanged]
  exact passes.refl isReady

theorem pure (a : α) : Keeps ready relates (pure a : Run α) :=
  of_unchanged passes fun _ => rfl

theorem throw (abort : Abort) : Keeps ready relates (throw abort : Run α) :=
  of_unchanged passes fun _ => rfl

theorem atToken (token : Token) (result : Except Fault α) :
    Keeps ready relates (atToken token result) :=
  of_unchanged passes (leftBy_atToken token result)

theorem bind (first : Keeps ready relates run) (second : ∀ a, Keeps ready relates (next a)) :
    Keeps ready relates (run >>= next) := by
  intro machine isReady
  have begun := first machine isReady
  cases ends : run machine with
  | ok a after =>
      rw [leftBy_bind_of_ok ends]
      rw [leftBy_of_ok ends] at begun
      exact passes.trans begun (second a after (passes.onward isReady begun))
  | error abort after =>
      rw [leftBy_bind_of_error ends]
      exact begun

theorem whileTruthy {test : Run Value} {body : Run Unit} (tests : Keeps ready relates test)
    (runs : Keeps ready relates body) (rounds : Nat) :
    Keeps ready relates (whileTruthy test body rounds) := by
  induction rounds with
  | zero => exact throw passes .unfinished
  | succ rounds inductionHypothesis =>
      refine bind passes tests fun outcome => ?_
      split
      · exact bind passes runs fun _ => inductionHypothesis
      · exact pure passes ()

theorem inOrder {perform : Node → Run Unit} (runs : ∀ node, Keeps ready relates (perform node))
    (statements : List Node) : Keeps ready relates (inOrder perform statements) := by
  induction statements with
  | nil => exact pure passes ()
  | cons statement statements inductionHypothesis =>
      exact bind passes (runs statement) fun _ => inductionHypothesis

end Sequences

/-! ## Expressions -/

/-- What holds when a variable is given another value holds for every expression that
assigns to such variables only. -/
theorem evaluate {assignable : String → Prop} (law : ValueLaw assignable ready relates)
    (levels : Nat) {node : Node} (targets : ∀ name ∈ node.targets, assignable name) :
    Keeps ready relates (evaluate levels node) := by
  have passes := law.toPasses
  induction levels generalizing node with
  | zero => exact throw passes .overNested
  | succ levels inductionHypothesis =>
      cases node with
      | literal value => exact pure passes value
      | grouping inner => exact inductionHypothesis targets
      | unary operator operand =>
          exact bind passes (inductionHypothesis targets) fun _ => atToken passes operator _
      | binary left operator right =>
          obtain ⟨lefts, rights⟩ := List.forall_mem_append.mp targets
          exact bind passes (inductionHypothesis lefts) fun _ =>
            bind passes (inductionHypothesis rights) fun _ => atToken passes operator _
      | logical left operator right =>
          obtain ⟨lefts, rights⟩ := List.forall_mem_append.mp targets
          refine bind passes (inductionHypothesis lefts) fun value => ?_
          split
          · exact pure passes value
          · exact inductionHypothesis rights
      | reference name => exact of_unchanged passes (leftBy_readVariable name)
      | assign name value =>
          obtain ⟨isAssignable, others⟩ := List.forall_mem_cons.mp targets
          refine bind passes (inductionHypothesis others) fun value =>
            bind passes (fun machine isReady => ?_) fun _ => pure passes value
          rcases leftBy_writeVariable name value machine with unchanged | ⟨_, resolves, written⟩
          · rw [unchanged]
            exact passes.refl isReady
          · rw [written]
            exact law.assign value isReady isAssignable resolves
      | _ => exact throw passes _

end Keeps

/-! ## Statements -/

namespace EffectLaw

variable {ready : Machine → Prop} {relates : Prop → Machine → Machine → Prop}
  (law : EffectLaw ready relates)

include law

theorem trace (closed : Prop) (line : String) : Keeps ready (relates closed) (trace line) :=
  fun _ isReady => law.note closed [line] isReady

theorem evaluate (closed : Prop) (levels : Nat) (node : Node) :
    Keeps ready (relates closed) (evaluate levels node) :=
  .evaluate (law.values closed) levels fun _ _ => trivial

theorem initialValue (closed : Prop) (levels : Nat) (initializer : Node) :
    Keeps ready (relates closed) (initialValue levels initializer) := by
  cases initializer with
  | absent => exact .pure (law.values closed).toPasses Value.nil
  | _ => exact law.evaluate closed levels _

/-- A scope is opened and discarded again, whatever was declared in it. -/
theorem inOwnScope (closed : Prop) {body : Run Unit} (inside : Keeps ready (relates False) body) :
    Keeps ready (relates closed) (inOwnScope body) := by
  intro machine isReady
  have here := (law.values closed).toPasses
  have there := (law.values False).toPasses
  have standing := law.standing isReady
  obtain ⟨told, enters⟩ := enterScope_eq_inside standing
  have entered := law.inside isReady
  have noted := law.note False [told] entered
  have ended := inside _ (there.onward entered noted)
  have opened := machine.inside_entered.note [told]
  rw [leftBy_inOwnScope standing opened enters (law.restored ended)]
  have left := law.outside closed isReady (there.trans noted ended)
  exact here.trans left (law.note closed _ (here.onward isReady left))

/-- What every step keeps up holds of a statement, however it ends. -/
theorem perform {closed : Prop} (rounds levels : Nat) {node : Node}
    (declaresNothing : closed → node.DeclaresNothing) :
    Keeps ready (relates closed) (perform rounds levels node) := by
  induction levels generalizing node closed with
  | zero => exact .throw (law.values closed).toPasses .overNested
  | succ levels inductionHypothesis =>
      have passes := (law.values closed).toPasses
      have begins := law.trace closed
      cases node with
      | exprStmt expr =>
          exact .bind passes (begins _) fun _ =>
            .bind passes (law.evaluate closed levels expr) fun _ => .pure passes ()
      | printStmt expr =>
          exact .bind passes (begins _) fun _ =>
            .bind passes (law.evaluate closed levels expr) fun value _ isReady =>
              law.print closed value.display isReady
      | varStmt name initializer =>
          refine .bind passes (begins _) fun _ =>
            .bind passes (law.initialValue closed levels initializer)
              fun value machine isReady => ?_
          rw [leftBy_declareVariable name value (law.standing isReady)]
          exact law.declare name.lexeme value declaresNothing isReady
      | blockStmt body =>
          -- The statements of a block may declare variables, whatever surrounds the block.
          refine .bind passes (begins _) fun _ => law.inOwnScope closed ?_
          exact .inOrder (law.values False).toPasses (fun _ => inductionHypothesis False.elim) body
      | ifStmt condition thenBranch elseBranch =>
          rw [perform_ifStmt]
          refine .bind passes (begins _) fun _ =>
            .bind passes (law.evaluate closed levels condition) fun outcome => ?_
          split
          · exact inductionHypothesis fun isClosed => (declaresNothing isClosed).1
          · cases elseBranch with
            | absent => exact .pure passes ()
            | _ => exact inductionHypothesis fun isClosed => (declaresNothing isClosed).2
      | whileStmt condition body =>
          have repeated : Keeps ready (relates closed) (Evaluation.perform rounds levels body) :=
            inductionHypothesis declaresNothing
          exact .bind passes (begins _) fun _ =>
            .whileTruthy passes (law.evaluate closed levels condition) repeated rounds
      | _ => exact .bind passes (begins _) fun _ => .throw passes _

/-- A machine that is ready is so after a new scope was opened. -/
theorem ready_of_enterScope {machine entered : Machine} (isReady : ready machine)
    (enters : enterScope machine = .ok () entered) : ready entered := by
  obtain ⟨told, opens⟩ := enterScope_eq_inside (law.standing isReady)
  rw [enters] at opens
  cases opens
  exact (law.values False).onward (law.inside isReady)
    (law.note False [told] (law.inside isReady))

end EffectLaw

/-! ## Tasks -/

/-- The machine that a task leaves behind, however it ends. -/
def Task.leave (rounds : Nat) : Task → Machine → Machine
  | value levels expr => leftBy (evaluate levels expr)
  | effect levels statement => leftBy (perform rounds levels statement)

/-- A task that is started in the course of another one, or that one itself. -/
inductive During (rounds : Nat) (task : Task) (start : Machine) : Task → Machine → Prop where
  | same : During rounds task start task start
  | call {middle inner : Task} {machine begun : Machine}
    (before : During rounds task start middle machine)
    (calls : Calls rounds middle machine inner begun) : During rounds task start inner begun

section Tasks

variable {ready : Machine → Prop} {relates : Prop → Machine → Machine → Prop} {rounds : Nat}
  {machine begun : Machine}

theorem Keeps.onward {run : Run α} {relates : Machine → Machine → Prop}
    (keeps : Keeps ready relates run) (passes : Passes ready relates) (isReady : ready machine) :
    ready (leftBy run machine) :=
  passes.onward isReady (keeps machine isReady)

theorem Keeps.onward_of_ok {run : Run α} {relates : Machine → Machine → Prop}
    (keeps : Keeps ready relates run) (passes : Passes ready relates) (isReady : ready machine)
    {a : α} (runs : run machine = .ok a begun) : ready begun := by
  rw [← leftBy_of_ok runs]
  exact keeps.onward passes isReady

/-- Of statements that are run in order, each is started on a machine that is ready. -/
theorem Starts.keeps {perform : Node → Run Unit} {relates : Machine → Machine → Prop}
    {statements : List Node} {statement : Node}
    (starts : Starts perform statements machine statement begun) (passes : Passes ready relates)
    (runs : ∀ node, Keeps ready relates (perform node)) (isReady : ready machine) :
    ready begun := by
  induction starts with
  | first => exact isReady
  | later did _ inductionHypothesis =>
      exact inductionHypothesis ((runs _).onward_of_ok passes isReady did)

/-- Every round of a loop begins on a machine that is ready. -/
theorem Begins.keeps {test : Run Value} {body : Run Unit} {relates : Machine → Machine → Prop}
    (begins : Begins test body rounds machine begun) (passes : Passes ready relates)
    (tests : Keeps ready relates test) (runs : Keeps ready relates body)
    (isReady : ready machine) : ready begun := by
  induction begins with
  | first => exact isReady
  | later tested _ did _ inductionHypothesis =>
      exact inductionHypothesis
        (runs.onward_of_ok passes (tests.onward_of_ok passes isReady tested) did)

variable (law : EffectLaw ready relates)

include law

theorem EffectLaw.leave (task : Task) (isReady : ready machine) :
    ready (task.leave rounds machine) := by
  have passes := (law.values False).toPasses
  cases task with
  | value levels expr => exact (law.evaluate False levels expr).onward passes isReady
  | effect levels statement => exact (law.perform rounds levels False.elim).onward passes isReady

/-- A task that runs on a machine that is ready starts others on machines that are
ready. -/
theorem EffectLaw.calls {task inner : Task} (calls : Calls rounds task machine inner begun)
    (isReady : ready machine) : ready begun := by
  have passes := (law.values False).toPasses
  have evaluates := law.evaluate False
  have performs (levels : Nat) (node : Node) :
      Keeps ready (relates False) (Evaluation.perform rounds levels node) :=
    law.perform rounds levels False.elim
  have notes (statement : Node) : ready (noted statement machine) :=
    passes.onward isReady (law.note False _ isReady)
  cases calls with
  | grouping | unary | binaryLeft | logicalLeft | assign => exact isReady
  | binaryRight runs | logicalRight runs _ =>
      exact (evaluates _ _).onward_of_ok passes isReady runs
  | exprStmt | printStmt | varStmt _ | condition => exact notes _
  | blockStmt enters starts =>
      exact starts.keeps passes (performs _) (law.ready_of_enterScope (notes _) enters)
  | thenBranch tests _ | elseBranch tests _ _ =>
      exact (evaluates _ _).onward_of_ok passes (notes _) tests
  | test begins => exact begins.keeps passes (evaluates _ _) (performs _ _) (notes _)
  | round begins tests _ =>
      have start := begins.keeps passes (evaluates _ _) (performs _ _) (notes _)
      exact (evaluates _ _).onward_of_ok passes start tests

/-- Whatever is started in the course of a task is started on a machine that is ready. -/
theorem EffectLaw.during {task inner : Task} (during : During rounds task machine inner begun)
    (isReady : ready machine) : ready begun := by
  induction during with
  | same => exact isReady
  | call _ calls inductionHypothesis => exact law.calls calls inductionHypothesis

end Tasks

end TreeWalker.Evaluation
