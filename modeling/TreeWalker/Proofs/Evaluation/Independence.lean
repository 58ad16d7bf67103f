import TreeWalker.Proofs.Evaluation.Restoration
import TreeWalker.Proofs.Evaluation.Stopping
import TreeWalker.Proofs.Tree.Names

/-!
# What a run depends on

Two machines on which the same tree runs give out different handles and may bind
all sorts of other variables.  What the tree can see of them are the frames around
it, and of these only the variables it names.  If the frames agree on those, the
runs take the same decisions, print the same lines and end in the same way; the
frames agree on those names afterwards, and each keeps all its other variables.
-/

namespace TreeWalker

variable {limit : Nat}

/-! ## Environments that agree on some names -/

namespace Reference

/-- Environments of the same depth that bind the given names alike, frame by
frame. -/
def AgreeOn (given : String → Prop) : Environment → Environment → Prop :=
  List.Forall₂ fun frame frame' => ∀ name, given name → frame.lookup name = frame'.lookup name

namespace AgreeOn

variable {given : String → Prop} {env env' env'' : Environment} {name : String} {value : Value}

theorem refl (given : String → Prop) (env : Environment) : AgreeOn given env env :=
  List.forall₂_same.mpr fun _ _ _ _ => rfl

theorem trans (first : AgreeOn given env env') (second : AgreeOn given env' env'') :
    AgreeOn given env env'' := by
  induction first generalizing env'' with
  | nil => exact second
  | cons frames _ inductionHypothesis =>
      cases second with
      | cons frames' others =>
          exact .cons (fun name isGiven => (frames name isGiven).trans (frames' name isGiven))
            (inductionHypothesis others)

theorem lookup_insert {frame frame' : Frame}
    (frames : ∀ name, given name → frame.lookup name = frame'.lookup name)
    (name : String) (value : Value) :
    ∀ other, given other →
      (frame.insert name value).lookup other = (frame'.insert name value).lookup other := by
  intro other isGiven
  by_cases same : other = name
  · subst same
    rw [Finmap.lookup_insert, Finmap.lookup_insert]
  · rw [Finmap.lookup_insert_of_ne _ same, Finmap.lookup_insert_of_ne _ same,
      frames other isGiven]

/-- A binding of another name is not seen. -/
theorem lookup_insert_of_not (other : ¬ given name) (frame : Frame) :
    ∀ seen, given seen → frame.lookup seen = (frame.insert name value).lookup seen := by
  intro seen isGiven
  rw [Finmap.lookup_insert_of_ne]
  rintro rfl
  exact other isGiven

/-! ### Reading and writing -/

theorem read?_eq (agree : AgreeOn given env env') (isGiven : given name) :
    read? name env = read? name env' := by
  induction agree with
  | nil => rfl
  | cons frames _ inductionHypothesis =>
      rw [read?, read?, frames name isGiven, inductionHypothesis]

theorem write? (agree : AgreeOn given env env') (isGiven : given name) (value : Value) :
    Option.Rel (AgreeOn given) (Reference.write? name value env)
      (Reference.write? name value env') := by
  induction agree with
  | nil => exact .none
  | @cons frame frame' outer outer' frames others inductionHypothesis =>
      rw [Reference.write?, Reference.write?, frames name isGiven]
      cases frame'.lookup name with
      | some old => exact .some (.cons (lookup_insert frames name value) others)
      | none =>
          dsimp only
          generalize Reference.write? name value outer = written,
            Reference.write? name value outer' = written' at inductionHypothesis
          cases inductionHypothesis with
          | none => exact .none
          | some agree => exact .some (.cons frames agree)

theorem of_write? (other : ¬ given name)
    (written : Reference.write? name value env = some env') : AgreeOn given env env' := by
  induction env generalizing env' with
  | nil => cases written
  | cons frame outer inductionHypothesis =>
      rw [Reference.write?] at written
      cases found : frame.lookup name with
      | some old =>
          rw [found] at written
          cases written
          exact .cons (lookup_insert_of_not other frame) (refl given outer)
      | none =>
          rw [found] at written
          obtain ⟨outer', outerWritten, rfl⟩ := Option.map_eq_some_iff.mp written
          exact .cons (fun _ _ => rfl) (inductionHypothesis outerWritten)

theorem declare (agree : AgreeOn given env env') (name : String) (value : Value) :
    AgreeOn given (Reference.declare name value env) (Reference.declare name value env') := by
  cases agree with
  | nil => exact .nil
  | cons frames others => exact .cons (lookup_insert frames name value) others

theorem of_declare (other : ¬ given name) (env : Environment) :
    AgreeOn given env (Reference.declare name value env) := by
  cases env with
  | nil => exact .nil
  | cons frame outer => exact .cons (lookup_insert_of_not other frame) (refl given outer)

end AgreeOn

end Reference

namespace Evaluation

open Reference (AgreeOn Environment)
open Scope (globalHandle)

/-! ## Two runs -/

/-- What a run has come to that started in an environment: the variables that are
not among the names are what they were. -/
structure Spares (names : List String) (env : Environment) (machine after : Machine)
    (lines : List String) (env' : Environment) : Prop where
  reaches : Reaches machine after lines env'
  others : AgreeOn (· ∉ names) env env'

/-- Two machines match environments that agree on the names. -/
structure Paired (names : List String) (machine machine' : Machine) (env env' : Environment) :
    Prop where
  matched : Matches machine env
  matched' : Matches machine' env'
  agree : AgreeOn (· ∈ names) env env'

/-- Two runs have printed the same lines and have come to machines that are paired
again, and each has spared all other variables. -/
def Abreast (names : List String) (machine machine' : Machine) (env env' : Environment)
    (after after' : Machine) : Prop :=
  ∃ lines inner inner', Spares names env machine after lines inner ∧
    Spares names env' machine' after' lines inner' ∧ AgreeOn (· ∈ names) inner inner'

/-- Two runs have ended in the same way, abreast of each other. -/
inductive EndsAbreast {α : Type} (names : List String) (machine machine' : Machine)
    (env env' : Environment) :
    EStateM.Result Abort Machine α → EStateM.Result Abort Machine α → Prop where
  | value {a : α} {after after' : Machine}
    (abreast : Abreast names machine machine' env env' after after') :
    EndsAbreast names machine machine' env env' (.ok a after) (.ok a after')
  | abort {abort : Abort} {after after' : Machine}
    (abreast : Abreast names machine machine' env env' after after') :
    EndsAbreast names machine machine' env env' (.error abort after) (.error abort after')

/-- A computation that depends on variables with the given names only. -/
def DependsOn {α : Type} (names : List String) (run : Run α) : Prop :=
  ∀ machine machine' env env', Paired names machine machine' env env' →
    EndsAbreast names machine machine' env env' (run machine) (run machine')

section Abreast

variable {names : List String} {machine machine' middle middle' final : Machine}
  {env env' inner inner' : Environment} {lines lines' : List String}

theorem Spares.refl (names : List String) (matched : Matches machine env) :
    Spares names env machine machine [] env :=
  ⟨.refl matched, .refl _ env⟩

theorem Spares.trans (first : Spares names env machine middle lines inner)
    (second : Spares names inner middle final lines' inner') :
    Spares names env machine final (lines ++ lines') inner' :=
  ⟨first.reaches.trans second.reaches, first.others.trans second.others⟩

theorem Paired.abreast (paired : Paired names machine machine' env env') :
    Abreast names machine machine' env env' machine machine' :=
  ⟨[], env, env', .refl names paired.matched, .refl names paired.matched', paired.agree⟩

theorem EndsAbreast.after {α : Type} {result result' : EStateM.Result Abort Machine α}
    (first : Spares names env machine middle lines inner)
    (first' : Spares names env' machine' middle' lines inner')
    (ends : EndsAbreast names middle middle' inner inner' result result') :
    EndsAbreast names machine machine' env env' result result' := by
  cases ends with
  | value abreast =>
      obtain ⟨_, _, _, second, second', agree⟩ := abreast
      exact .value ⟨_, _, _, first.trans second, first'.trans second', agree⟩
  | abort abreast =>
      obtain ⟨_, _, _, second, second', agree⟩ := abreast
      exact .abort ⟨_, _, _, first.trans second, first'.trans second', agree⟩

end Abreast

namespace DependsOn

variable {α β : Type} {names : List String} {run : Run α} {next : α → Run β}

/-! ### Sequences -/

theorem pure (a : α) : DependsOn names (pure a : Run α) :=
  fun _ _ _ _ paired => .value paired.abreast

theorem throw (abort : Abort) : DependsOn names (throw abort : Run α) :=
  fun _ _ _ _ paired => .abort paired.abreast

theorem bind (first : DependsOn names run) (second : ∀ a, DependsOn names (next a)) :
    DependsOn names (run >>= next) := by
  intro machine machine' env env' paired
  have ends := first machine machine' env env' paired
  rw [bind_apply, bind_apply]
  generalize run machine = result, run machine' = result' at ends
  cases ends with
  | abort abreast => exact .abort abreast
  | @value a _ _ abreast =>
      obtain ⟨lines, inner, inner', spares, spares', agree⟩ := abreast
      exact (second a _ _ inner inner' ⟨spares.reaches.matched, spares'.reaches.matched,
        agree⟩).after spares spares'

/-! ### Operations of the machine -/

theorem atToken (token : Token) (result : Except Fault α) :
    DependsOn names (atToken token result) := by
  cases result with
  | ok a => exact pure a
  | error fault => exact throw _

theorem note (lines : List String) : DependsOn names (modify (·.note lines) : Run PUnit) :=
  fun _ _ env env' paired => .value ⟨[], env, env', ⟨.note paired.matched lines, .refl _ env⟩,
    ⟨.note paired.matched' lines, .refl _ env'⟩, paired.agree⟩

theorem trace (line : String) : DependsOn names (trace line) :=
  note [line]

theorem printLine (line : String) : DependsOn names (printLine line) :=
  fun _ _ env env' paired => .value ⟨[line], env, env', ⟨.print paired.matched line, .refl _ env⟩,
    ⟨.print paired.matched' line, .refl _ env'⟩, paired.agree⟩

theorem readVariable {name : Token} (named : name.lexeme ∈ names) :
    DependsOn names (readVariable name) := by
  intro machine machine' env env' paired
  rw [readVariable_apply paired.matched, readVariable_apply paired.matched',
    paired.agree.read?_eq named]
  cases Reference.read? name.lexeme env' with
  | some value => exact .value paired.abreast
  | none => exact .abort paired.abreast

theorem writeVariable {name : Token} (named : name.lexeme ∈ names) (value : Value) :
    DependsOn names (writeVariable name value) := by
  intro machine machine' env env' paired
  have writes := paired.agree.write? named value
  have untouched : ¬ (name.lexeme ∉ names) := not_not_intro named
  cases written : Reference.write? name.lexeme value env with
  | none =>
      rw [written] at writes
      cases written' : Reference.write? name.lexeme value env' with
      | some inner' =>
          rw [written'] at writes
          cases writes
      | none =>
          rw [writeVariable_apply_none paired.matched written,
            writeVariable_apply_none paired.matched' written']
          exact .abort paired.abreast
  | some inner =>
      rw [written] at writes
      cases written' : Reference.write? name.lexeme value env' with
      | none =>
          rw [written'] at writes
          cases writes
      | some inner' =>
          rw [written'] at writes
          cases writes with
          | some agree =>
              obtain ⟨after, ends, reaches⟩ := writeVariable_apply_some paired.matched written
              obtain ⟨after', ends', reaches'⟩ :=
                writeVariable_apply_some paired.matched' written'
              rw [ends, ends']
              exact .value ⟨[], inner, inner', ⟨reaches, .of_write? untouched written⟩,
                ⟨reaches', .of_write? untouched written'⟩, agree⟩

theorem declareVariable {name : Token} (named : name.lexeme ∈ names) (value : Value) :
    DependsOn names (declareVariable name value) := by
  intro machine machine' env env' paired
  have untouched : ¬ (name.lexeme ∉ names) := not_not_intro named
  obtain ⟨after, ends, reaches⟩ := declareVariable_apply paired.matched name value
  obtain ⟨after', ends', reaches'⟩ := declareVariable_apply paired.matched' name value
  rw [ends, ends']
  exact .value ⟨[], _, _, ⟨reaches, .of_declare untouched env⟩,
    ⟨reaches', .of_declare untouched env'⟩, paired.agree.declare name.lexeme value⟩

/-! ### Blocks -/

/-- Both machines open a scope, whatever its handle, and take it away again. -/
theorem inOwnScope {body : Run Unit} (inside : DependsOn names body) :
    DependsOn names (inOwnScope body) := by
  intro machine machine' env env' paired
  obtain ⟨entered, enters, matched, opened, output⟩ := enterScope_apply paired.matched
  obtain ⟨entered', enters', matched', opened', output'⟩ := enterScope_apply paired.matched'
  have opens : Paired names entered entered' (∅ :: env) (∅ :: env') :=
    ⟨matched, matched', .cons (fun _ _ => rfl) paired.agree⟩
  have ends := inside entered entered' _ _ opens
  rw [Restores.inOwnScope_apply enters, Restores.inOwnScope_apply enters', andFinally, andFinally]
  generalize body entered = result, body entered' = result' at ends
  have closes {after after' : Machine}
      (abreast : Abreast names entered entered' (∅ :: env) (∅ :: env') after after') :
      ∃ left left', leaveScope machine.current after = .ok () left ∧
        leaveScope machine'.current after' = .ok () left' ∧
        Abreast names machine machine' env env' left left' := by
    obtain ⟨lines, inner, inner', spares, spares', agree⟩ := abreast
    obtain ⟨frame, outer, left, rfl, leaves, back⟩ := spares.reaches.leaveScope opened output
    obtain ⟨frame', outer', left', rfl, leaves', back'⟩ :=
      spares'.reaches.leaveScope opened' output'
    cases spares.others with
    | cons _ others =>
        cases spares'.others with
        | cons _ others' =>
            cases agree with
            | cons _ agree =>
                exact ⟨left, left', leaves, leaves', lines, outer, outer', ⟨back, others⟩,
                  ⟨back', others'⟩, agree⟩
  cases ends with
  | value abreast =>
      obtain ⟨left, left', leaves, leaves', outside⟩ := closes abreast
      simp only [leaves, leaves']
      exact .value outside
  | abort abreast =>
      obtain ⟨left, left', leaves, leaves', outside⟩ := closes abreast
      simp only [leaves, leaves']
      exact .abort outside

/-! ### Trees -/

theorem whileTruthy {test : Run Value} {body : Run Unit} (tests : DependsOn names test)
    (runs : DependsOn names body) (rounds : Nat) :
    DependsOn names (whileTruthy test body rounds) := by
  induction rounds with
  | zero => exact throw _
  | succ rounds inductionHypothesis =>
      refine tests.bind fun outcome => ?_
      split
      · exact runs.bind fun _ => inductionHypothesis
      · exact pure ()

theorem inOrder {run : Node → Run Unit} {statements : List Node}
    (runs : ∀ statement ∈ statements, DependsOn names (run statement)) :
    DependsOn names (inOrder run statements) := by
  induction statements with
  | nil => exact pure ()
  | cons statement statements inductionHypothesis =>
      exact (runs statement List.mem_cons_self).bind fun _ => inductionHypothesis
        fun other member => runs other (List.mem_cons_of_mem _ member)

theorem evaluate {expr : Node} (named : expr.names ⊆ names) (levels : Nat) :
    DependsOn names (evaluate levels expr) := by
  induction levels generalizing expr with
  | zero => exact throw _
  | succ levels inductionHypothesis =>
      cases expr with
      | literal value => exact pure value
      | grouping inner => exact inductionHypothesis named
      | unary operator operand =>
          have inOperand : operand.names ⊆ names := named
          exact (inductionHypothesis inOperand).bind fun _ => atToken operator _
      | binary left operator right =>
          obtain ⟨inLeft, inRight⟩ := List.append_subset.mp named
          exact (inductionHypothesis inLeft).bind fun _ =>
            (inductionHypothesis inRight).bind fun _ => atToken operator _
      | logical left operator right =>
          obtain ⟨inLeft, inRight⟩ := List.append_subset.mp named
          refine (inductionHypothesis inLeft).bind fun value => ?_
          split
          · exact pure value
          · exact inductionHypothesis inRight
      | reference name => exact readVariable (named List.mem_cons_self)
      | assign name value =>
          obtain ⟨target, inValue⟩ := List.cons_subset.mp named
          exact (inductionHypothesis inValue).bind fun value =>
            (writeVariable target value).bind fun _ => pure value
      | _ => exact throw _

theorem initialValue {initializer : Node} (named : initializer.names ⊆ names) (levels : Nat) :
    DependsOn names (initialValue levels initializer) := by
  cases initializer with
  | absent => exact pure Value.nil
  | _ => exact evaluate named levels

theorem perform {statement : Node} (named : statement.names ⊆ names) (rounds levels : Nat) :
    DependsOn names (perform rounds levels statement) := by
  induction levels generalizing statement with
  | zero => exact throw _
  | succ levels inductionHypothesis =>
      cases statement with
      | exprStmt expr =>
          have inExpr : expr.names ⊆ names := named
          exact (trace _).bind fun _ => (evaluate inExpr levels).bind fun _ => pure ()
      | printStmt expr =>
          have inExpr : expr.names ⊆ names := named
          exact (trace _).bind fun _ => (evaluate inExpr levels).bind fun value =>
            printLine value.display
      | varStmt name initializer =>
          obtain ⟨declared, inInitializer⟩ := List.cons_subset.mp named
          exact (trace _).bind fun _ => (initialValue inInitializer levels).bind fun value =>
            declareVariable declared value
      | blockStmt body =>
          exact (trace _).bind fun _ => inOwnScope (inOrder fun _ member =>
            inductionHypothesis (List.Subset.trans (Node.names_subset_namesOfAll member) named))
      | ifStmt condition thenBranch elseBranch =>
          obtain ⟨inCondition, inBranches⟩ := List.append_subset.mp named
          obtain ⟨inThen, inElse⟩ := List.append_subset.mp inBranches
          rw [perform_ifStmt]
          refine (trace _).bind fun _ => (evaluate inCondition levels).bind fun outcome => ?_
          split
          · exact inductionHypothesis inThen
          · cases elseBranch with
            | absent => exact pure ()
            | _ => exact inductionHypothesis inElse
      | whileStmt condition body =>
          obtain ⟨inCondition, inBody⟩ := List.append_subset.mp named
          exact (trace _).bind fun _ =>
            whileTruthy (evaluate inCondition levels) (inductionHypothesis inBody) rounds
      | _ => exact (trace _).bind fun _ => throw _

/-! ### Programs -/

theorem diagnose (statement : Node) (abort : Abort) :
    DependsOn names (diagnose statement abort) := by
  cases abort with
  | fault | overNested => exact (trace _).bind fun _ => pure _
  | _ => exact throw _

theorem runProgram {statements : List Node} (named : Node.namesOfAll statements ⊆ names)
    (limit rounds : Nat) : DependsOn names (runProgram limit rounds statements) := by
  induction statements with
  | nil => exact pure none
  | cons statement statements inductionHypothesis =>
      obtain ⟨inFirst, inOthers⟩ := List.append_subset.mp named
      intro machine machine' env env' paired
      have ends := perform inFirst rounds limit machine machine' env env' paired
      rw [runProgram_cons, runProgram_cons]
      generalize Evaluation.perform rounds limit statement machine = result,
        Evaluation.perform rounds limit statement machine' = result' at ends
      cases ends with
      | value abreast =>
          obtain ⟨_, _, _, spares, spares', agree⟩ := abreast
          exact (inductionHypothesis inOthers _ _ _ _ ⟨spares.reaches.matched,
            spares'.reaches.matched, agree⟩).after spares spares'
      | @abort abort _ _ abreast =>
          obtain ⟨_, _, _, spares, spares', agree⟩ := abreast
          exact (diagnose statement abort _ _ _ _ ⟨spares.reaches.matched,
            spares'.reaches.matched, agree⟩).after spares spares'

end DependsOn

/-! ## Programs on two machines -/

/-- Two runs have printed the same lines, the global variables agree again on the
names, and each machine has kept its other ones. -/
structure SameEffect (names : List String) (machine machine' after after' : Machine) : Prop where
  printed : ∃ lines, after.output.toList = machine.output.toList ++ lines ∧
    after'.output.toList = machine'.output.toList ++ lines
  agree : ∀ name ∈ names,
    after.arena.globals.value? name = after'.arena.globals.value? name
  kept : ∀ name ∉ names, after.arena.globals.value? name = machine.arena.globals.value? name
  kept' : ∀ name ∉ names, after'.arena.globals.value? name = machine'.arena.globals.value? name
  topLevel : TopLevel after
  topLevel' : TopLevel after'

/-- Two programs have told the same problem, or none, or were aborted in the same way
without one, and have had the same effect up to then. -/
inductive EndsEqually (names : List String) (machine machine' : Machine) :
    EStateM.Result Abort Machine (Option Diagnostic) →
      EStateM.Result Abort Machine (Option Diagnostic) → Prop where
  | ended {problem : Option Diagnostic} {after after' : Machine}
    (effect : SameEffect names machine machine' after after') :
    EndsEqually names machine machine' (.ok problem after) (.ok problem after')
  | aborted {abort : Abort} {after after' : Machine}
    (effect : SameEffect names machine machine' after after') :
    EndsEqually names machine machine' (.error abort after) (.error abort after')

theorem globals_eq_lookup (machine : Machine) (name : String) :
    machine.arena.globals.value? name = (globalsOf machine).lookup name :=
  Scope.agree_frame machine.arena.globals name

theorem Abreast.sameEffect {names : List String} {machine machine' after after' : Machine}
    (topLevel : TopLevel machine) (topLevel' : TopLevel machine')
    (abreast : Abreast names machine machine' [globalsOf machine] [globalsOf machine'] after
      after') : SameEffect names machine machine' after after' := by
  obtain ⟨lines, _, _, ⟨reaches, others⟩, ⟨reaches', others'⟩, agree⟩ := abreast
  obtain ⟨afterTopLevel, rfl⟩ := topLevel.of_reaches reaches
  obtain ⟨afterTopLevel', rfl⟩ := topLevel'.of_reaches reaches'
  rcases agree with _ | ⟨agree, _⟩
  rcases others with _ | ⟨kept, _⟩
  rcases others' with _ | ⟨kept', _⟩
  simp only [← globals_eq_lookup] at agree kept kept'
  exact ⟨⟨lines, reaches.output, reaches'.output⟩, agree, fun name other => (kept name other).symm,
    fun name other => (kept' name other).symm, afterTopLevel, afterTopLevel'⟩

/-- A program depends on the global variables that it names, and on nothing else that
has happened on the machine.  From two machines between programs that agree on these
it ends in the same way, and to the same effect. -/
theorem runProgram_depends {statements : List Node} {machine machine' : Machine}
    (topLevel : TopLevel machine) (topLevel' : TopLevel machine')
    (agree : ∀ name ∈ Node.namesOfAll statements,
      machine.arena.globals.value? name = machine'.arena.globals.value? name) (rounds : Nat) :
    EndsEqually (Node.namesOfAll statements) machine machine'
      (runProgram limit rounds statements machine)
      (runProgram limit rounds statements machine') := by
  have paired : Paired (Node.namesOfAll statements) machine machine' [globalsOf machine]
      [globalsOf machine'] := by
    refine ⟨topLevel.matched, topLevel'.matched, .cons (fun name named => ?_) .nil⟩
    rw [← globals_eq_lookup, ← globals_eq_lookup, agree name named]
  have ends := DependsOn.runProgram (List.Subset.refl _) limit rounds machine machine' _ _ paired
  generalize runProgram limit rounds statements machine = result,
    runProgram limit rounds statements machine' = result' at ends
  cases ends with
  | value abreast => exact .ended (abreast.sameEffect topLevel topLevel')
  | abort abreast => exact .aborted (abreast.sameEffect topLevel topLevel')

open Grammar (letter)

/-- The program `{ var a = b; b = nil; print a; } print a;`. -/
def borrowing : List Node :=
  [.blockStmt [.varStmt (letter "a") (.reference (letter "b")),
      .exprStmt (.assign (letter "b") (.literal .nil)), .printStmt (.reference (letter "a"))],
    .printStmt (.reference (letter "a"))]

/-- A machine at the start of a session that has bound one variable. -/
def youngMachine : Machine :=
  { Machine.initial false with
    arena := ⟨[⟨globalHandle, none, [("b", .string "lent")]⟩], 1⟩ }

/-- A traced machine late in a session, with one more variable. -/
def oldMachine : Machine :=
  { Machine.initial true with
    arena := ⟨[⟨globalHandle, none, [("c", .boolean true), ("b", .string "lent")]⟩], 9⟩
    output := #["before"] }

/-- On both machines the program prints what it finds and is stopped after its block. -/
theorem runProgram_depends_borrowing :
    TopLevel youngMachine ∧ TopLevel oldMachine ∧
      (∀ name ∈ Node.namesOfAll borrowing,
        youngMachine.arena.globals.value? name = oldMachine.arena.globals.value? name) ∧
      EndsEqually (Node.namesOfAll borrowing) youngMachine oldMachine
        (runProgram 100 0 borrowing youngMachine) (runProgram 100 0 borrowing oldMachine) ∧
      (runProgram 100 0 borrowing).run' oldMachine =
        some (some ⟨.runtime, 1, "", "Undefined variable 'a'."⟩) ∧
      (leftBy (runProgram 100 0 borrowing) oldMachine).output = #["before", "lent"] := by
  have young : TopLevel youngMachine := ⟨⟨_, rfl⟩, rfl, by decide⟩
  have old : TopLevel oldMachine := ⟨⟨_, rfl⟩, rfl, by decide⟩
  have agree : ∀ name ∈ Node.namesOfAll borrowing,
      youngMachine.arena.globals.value? name = oldMachine.arena.globals.value? name := by
    decide +kernel
  exact ⟨young, old, agree, runProgram_depends young old agree 0, by decide +kernel,
    by decide +kernel⟩

end Evaluation

end TreeWalker
