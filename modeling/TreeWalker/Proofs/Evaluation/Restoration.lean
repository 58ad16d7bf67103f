import TreeWalker.Proofs.Evaluation.Refinement
import TreeWalker.Proofs.Scope.Order
import TreeWalker.Session

/-!
# Scopes are restored

A block opens a scope and discards the scope that is current when it ends.  That
this is the scope it opened needs that everything inside restored the scopes in
its turn, and this for every way in which it may have ended.  So one relation is
carried through all computations: in the end the same scope is current, the same
scopes are live with the same scopes around them, and handles were only given
out.  It holds whatever the trees look like, and on every machine whose current
scope is anchored.
-/

namespace TreeWalker.Evaluation

open Scope (Anchored Handle Ordered globalHandle)

namespace Machine

variable (machine : Machine) (lines : List String)

@[simp]
theorem note_arena : (machine.note lines).arena = machine.arena := by
  unfold note
  split <;> rfl

@[simp]
theorem note_current : (machine.note lines).current = machine.current := by
  unfold note
  split <;> rfl

end Machine

/-- The current scope of a machine is anchored. -/
structure Standing (machine : Machine) : Prop where
  ordered : Ordered machine.arena.links machine.arena.next
  anchored : Anchored machine.arena.links machine.current

/-- The same scope is current and the same scopes are live, each inside the same
other one.  Handles may have been given out in between. -/
structure Restored (machine after : Machine) : Prop where
  current : after.current = machine.current
  links : after.arena.links = machine.arena.links
  next : machine.arena.next ≤ after.arena.next

namespace Restored

variable {machine middle after : Machine}

theorem refl (machine : Machine) : Restored machine machine :=
  ⟨rfl, rfl, Int.le_refl _⟩

theorem trans (first : Restored machine middle) (second : Restored middle after) :
    Restored machine after where
  current := second.current.trans first.current
  links := second.links.trans first.links
  next := Int.le_trans first.next second.next

theorem note (machine : Machine) (lines : List String) : Restored machine (machine.note lines) :=
  ⟨machine.note_current lines, by rw [machine.note_arena], by rw [machine.note_arena]⟩

theorem standing (restored : Restored machine after) (standing : Standing machine) :
    Standing after where
  ordered := by
    rw [restored.links]
    exact standing.ordered.mono restored.next
  anchored := by
    rw [restored.links, restored.current]
    exact standing.anchored

end Restored

/-- However a run has ended, the scopes are restored.  It has not ended because a
scope was gone. -/
inductive EndsRestored {α : Type} (machine : Machine) : EStateM.Result Abort Machine α → Prop where
  | value {a : α} {after : Machine} (restored : Restored machine after) :
    EndsRestored machine (.ok a after)
  | abort {abort : Abort} {after : Machine} (restored : Restored machine after)
    (live : ∀ fault, abort ≠ .scope fault) : EndsRestored machine (.error abort after)

theorem EndsRestored.after {α : Type} {machine middle : Machine}
    {result : EStateM.Result Abort Machine α} (first : Restored machine middle)
    (ends : EndsRestored middle result) : EndsRestored machine result := by
  cases ends with
  | value restored => exact .value (first.trans restored)
  | abort restored live => exact .abort (first.trans restored) live

/-- A computation restores the scopes of every machine whose current scope is
anchored. -/
def Restores {α : Type} (run : Run α) : Prop :=
  ∀ machine, Standing machine → EndsRestored machine (run machine)

namespace Restores

variable {α β : Type} {run : Run α} {next : α → Run β}

/-! ## Sequences -/

theorem pure (a : α) : Restores (pure a : Run α) :=
  fun machine _ => .value (.refl machine)

theorem throw {abort : Abort} (live : ∀ fault, abort ≠ .scope fault) :
    Restores (throw abort : Run α) :=
  fun machine _ => .abort (.refl machine) live

theorem bind (first : Restores run) (second : ∀ a, Restores (next a)) :
    Restores (run >>= next) := by
  intro machine standing
  rw [bind_apply]
  have ends := first machine standing
  generalize run machine = result at ends
  cases ends with
  | value restored => exact (second _ _ (restored.standing standing)).after restored
  | abort restored live => exact .abort restored live

/-! ## Operations of the machine -/

theorem atToken (token : Token) (result : Except Fault α) : Restores (atToken token result) := by
  cases result with
  | ok a => exact pure a
  | error fault => exact throw fun _ => Abort.noConfusion

theorem note (lines : List String) : Restores (modify (·.note lines) : Run PUnit) :=
  fun machine _ => .value (.note machine lines)

theorem trace (line : String) : Restores (trace line) :=
  note [line]

theorem printLine (line : String) : Restores (printLine line) :=
  fun _ _ => .value ⟨rfl, rfl, Int.le_refl _⟩

theorem readVariable (name : Token) : Restores (readVariable name) := by
  intro machine standing
  have walk := Scope.walk_of_anchored standing.ordered standing.anchored
  rcases walk.climb fun entry => entry.bindings.value? name.lexeme with ⟨found, climbs⟩
  rw [Evaluation.readVariable, get_bind_apply, Scope.Arena.lookup, climbs]
  cases found with
  | some value => exact pure value machine standing
  | none => exact atToken name (.error (.undefined name.lexeme)) machine standing

theorem writeVariable (name : Token) (value : Value) : Restores (writeVariable name value) := by
  intro machine standing
  have walk := Scope.walk_of_anchored standing.ordered standing.anchored
  rcases walk.climb (Scope.resolver name.lexeme) with ⟨found, climbs⟩
  have updates : machine.arena.update machine.current name.lexeme value =
      .ok (found.map fun scope => machine.arena.bindAt scope name.lexeme value) :=
    Scope.Arena.update_of_resolve climbs value
  rw [Evaluation.writeVariable, get_bind_apply, updates]
  cases found with
  | some scope => exact .value ⟨rfl, Scope.Arena.links_bindAt _ _ _ _, Int.le_refl _⟩
  | none => exact atToken name (.error (.undefined name.lexeme)) machine standing

theorem declareVariable (name : Token) (value : Value) :
    Restores (declareVariable name value) := by
  intro machine standing
  have live := Scope.Arena.isLive_iff.mpr standing.anchored.exists_mem
  rw [Evaluation.declareVariable, get_bind_apply, Scope.Arena.declare, if_pos live]
  exact .value ⟨rfl, Scope.Arena.links_bindAt _ _ _ _, Int.le_refl _⟩

/-! ## Blocks -/

/-- A machine that has just opened a scope inside its current one. -/
structure Entered (machine entered : Machine) : Prop where
  current : entered.current = machine.arena.next
  links : entered.arena.links = (machine.arena.next, some machine.current) :: machine.arena.links
  next : entered.arena.next = machine.arena.next + 1

theorem Entered.note {machine entered : Machine} (opened : Entered machine entered)
    (lines : List String) : Entered machine (entered.note lines) := by
  constructor
  · rw [Machine.note_current, opened.current]
  · rw [Machine.note_arena, opened.links]
  · rw [Machine.note_arena, opened.next]

theorem Entered.standing {machine entered : Machine} (opened : Entered machine entered)
    (standing : Standing machine) : Standing entered := by
  obtain ⟨_, member⟩ := standing.anchored.exists_mem
  constructor
  · rw [opened.links, opened.next]
    exact standing.ordered.push (standing.ordered.below _ member)
  · rw [opened.links, opened.current]
    exact .inner List.mem_cons_self standing.anchored.cons

/-- A block opens a scope, and its depth is noted if it is wanted. -/
theorem enterScope_standing {machine : Machine} (standing : Standing machine) :
    ∃ arena told, machine.arena.nest machine.current = .ok (machine.arena.next, arena) ∧
      Entered machine { machine with arena, current := machine.arena.next } ∧
      enterScope machine =
        .ok () (Machine.note { machine with arena, current := machine.arena.next } [told]) := by
  have live := Scope.Arena.isLive_iff.mpr standing.anchored.exists_mem
  obtain ⟨arena, nests, links, next⟩ := Scope.Arena.nest_eq_ok live
  let entered : Machine := { machine with arena, current := machine.arena.next }
  have opened : Entered machine entered := ⟨rfl, links, next⟩
  have deeper := opened.standing standing
  rcases (Scope.walk_of_anchored deeper.ordered deeper.anchored).climbDepth with ⟨depth, climbs⟩
  have depthOk : arena.depth entered.current = .ok depth := climbs
  have opens : enterScope machine = (do
      if entered.tracing then
        let depth ← onScopes (arena.depth entered.current)
        Evaluation.trace ("  Entered scope " ++ toString entered.current ++ " (depth " ++
          toString depth ++ ")")
      : Run Unit) entered := by
    rw [enterScope, get_bind_apply, nests]
    rfl
  refine ⟨arena, "  Entered scope " ++ toString entered.current ++ " (depth " ++
    toString depth ++ ")", nests, opened, ?_⟩
  change enterScope machine = .ok () (entered.note _)
  rw [opens, Machine.note]
  by_cases tracing : entered.tracing = true
  · rw [if_pos tracing, if_pos tracing, depthOk]
    change EStateM.Result.ok () (entered.note _) = _
    rw [Machine.note, if_pos tracing]
  · rw [if_neg tracing, if_neg tracing]
    rfl

/-- The scope that a block has opened is the one it discards. -/
theorem leaveScope_restored {machine entered after : Machine} (standing : Standing machine)
    (opened : Entered machine entered) (restored : Restored entered after) :
    ∃ left, leaveScope machine.current after = .ok () left ∧ Restored machine left := by
  have inside := restored.standing (opened.standing standing)
  have newest := restored.links.trans opened.links
  have current := restored.current.trans opened.current
  have inner : machine.arena.next ≠ globalHandle := Int.ne_of_gt standing.ordered.global
  obtain ⟨_, arena, discards, links, next⟩ :=
    Scope.Arena.discard_live [] inside.ordered newest inner
  let left : Machine := { after with arena, current := machine.current }
  have back : Restored machine left := by
    refine ⟨rfl, links, ?_⟩
    have skipped := restored.next
    rw [opened.next] at skipped
    change machine.arena.next ≤ arena.next
    rw [next]
    exact Int.le_trans (Int.le_of_lt (Int.lt_succ _)) skipped
  refine ⟨left.note ["  Restored scope " ++ toString machine.current], ?_,
    back.trans (.note left _)⟩
  rw [leaveScope, get_bind_apply]
  change (onScopes (after.arena.discard after.current) >>= _) _ = _
  rw [current, discards]
  rfl

theorem inOwnScope_apply {machine entered : Machine} (enters : enterScope machine = .ok () entered)
    (body : Run Unit) :
    inOwnScope body machine = andFinally body (leaveScope machine.current) entered := by
  rw [Evaluation.inOwnScope, get_bind_apply]
  exact bind_apply_ok enters

/-- A block restores the scopes if its body does. -/
theorem inOwnScope {body : Run Unit} (inside : Restores body) : Restores (inOwnScope body) := by
  intro machine standing
  obtain ⟨arena, told, _, entered, enters⟩ := enterScope_standing standing
  have opened := entered.note [told]
  rw [inOwnScope_apply enters, andFinally]
  have ends := inside _ (opened.standing standing)
  generalize body _ = result at ends
  cases ends with
  | value restored =>
      rcases leaveScope_restored standing opened restored with ⟨left, leaves, back⟩
      simp only [leaves]
      exact .value back
  | abort restored live =>
      rcases leaveScope_restored standing opened restored with ⟨left, leaves, back⟩
      simp only [leaves]
      exact .abort back live

/-! ## Trees -/

/-- A loop restores the scopes in every round. -/
theorem whileTruthy {test : Run Value} {body : Run Unit} (tests : Restores test)
    (runs : Restores body) (rounds : Nat) : Restores (whileTruthy test body rounds) := by
  induction rounds with
  | zero => exact throw fun _ => Abort.noConfusion
  | succ rounds inductionHypothesis =>
      refine tests.bind fun outcome => ?_
      split
      · exact runs.bind fun _ => inductionHypothesis
      · exact pure ()

theorem inOrder {run : Node → Run Unit} (runs : ∀ statement, Restores (run statement))
    (statements : List Node) : Restores (inOrder run statements) := by
  induction statements with
  | nil => exact pure ()
  | cons statement statements inductionHypothesis =>
      exact (runs statement).bind fun _ => inductionHypothesis

theorem evaluate (levels : Nat) (node : Node) : Restores (evaluate levels node) := by
  induction levels generalizing node with
  | zero => exact throw fun _ => Abort.noConfusion
  | succ levels inductionHypothesis =>
      cases node with
      | literal value => exact pure value
      | grouping inner => exact inductionHypothesis inner
      | unary operator operand =>
          exact (inductionHypothesis operand).bind fun _ => atToken operator _
      | binary left operator right =>
          exact (inductionHypothesis left).bind fun _ =>
            (inductionHypothesis right).bind fun _ => atToken operator _
      | logical left operator right =>
          refine (inductionHypothesis left).bind fun value => ?_
          split
          · exact pure value
          · exact inductionHypothesis right
      | reference name => exact readVariable name
      | assign name value =>
          exact (inductionHypothesis value).bind fun value =>
            (writeVariable name value).bind fun _ => pure value
      | _ => exact throw fun _ => Abort.noConfusion

theorem initialValue (levels : Nat) (initializer : Node) :
    Restores (initialValue levels initializer) := by
  cases initializer with
  | absent => exact pure Value.nil
  | _ => exact evaluate levels _

theorem perform (rounds levels : Nat) (node : Node) : Restores (perform rounds levels node) := by
  induction levels generalizing node with
  | zero => exact throw fun _ => Abort.noConfusion
  | succ levels inductionHypothesis =>
      cases node with
      | exprStmt expr =>
          exact (trace _).bind fun _ => (evaluate levels expr).bind fun _ => pure ()
      | printStmt expr =>
          exact (trace _).bind fun _ => (evaluate levels expr).bind fun value =>
            printLine value.display
      | varStmt name initializer =>
          exact (trace _).bind fun _ => (initialValue levels initializer).bind fun value =>
            declareVariable name value
      | blockStmt body =>
          exact (trace _).bind fun _ => inOwnScope (inOrder inductionHypothesis body)
      | ifStmt condition thenBranch elseBranch =>
          rw [perform_ifStmt]
          refine (trace _).bind fun _ => (evaluate levels condition).bind fun outcome => ?_
          split
          · exact inductionHypothesis thenBranch
          · cases elseBranch with
            | absent => exact pure ()
            | _ => exact inductionHypothesis _
      | whileStmt condition body =>
          exact (trace _).bind fun _ =>
            whileTruthy (evaluate levels condition) (inductionHypothesis body) rounds
      | _ => exact (trace _).bind fun _ => throw fun _ => Abort.noConfusion

/-! ## Programs and sessions -/

theorem stopWith (line : Int) (message noted : String) : Restores (stopWith line message noted) :=
  (trace _).bind fun _ => pure _

theorem diagnose {abort : Abort} (live : ∀ fault, abort ≠ .scope fault) (statement : Node) :
    Restores (diagnose statement abort) := by
  cases abort with
  | fault line fault => exact stopWith line _ _
  | overNested => exact stopWith _ _ _
  | scope fault => exact absurd rfl (live fault)
  | misplaced | unfinished => exact throw live

theorem runProgram (levels rounds : Nat) (statements : List Node) :
    Restores (runProgram levels rounds statements) := by
  induction statements with
  | nil => exact pure none
  | cons statement statements inductionHypothesis =>
      intro machine standing
      have ends := perform rounds levels statement machine standing
      rw [runProgram_cons]
      generalize Evaluation.perform rounds levels statement machine = result at ends
      cases ends with
      | value restored =>
          exact (inductionHypothesis _ (restored.standing standing)).after restored
      | abort restored live =>
          exact (diagnose live statement _ (restored.standing standing)).after restored

theorem session (limits : Limits) (rounds : Nat) (treatment : Treatment) (source : List Char) :
    Restores (Session.run limits rounds treatment source) := by
  refine (note _).bind fun _ => ?_
  split
  · exact (runProgram limits.running rounds _).bind fun _ => pure _
  · exact pure _

end Restores

/-! ## Sequences of runs -/

/-- What an interpreter may be asked to run, with so many levels for what is nested and so
many rounds for each loop. -/
inductive Call where
  | interpret (levels rounds : Nat) (statements : List Node)
  | evaluate (levels : Nat) (expr : Node)
  | source (limits : Limits) (rounds : Nat) (treatment : Treatment) (text : List Char)

/-- The machine that a run leaves behind, however it has ended. -/
def leftBy {α : Type} (run : Run α) (machine : Machine) : Machine :=
  match run machine with
  | .ok _ after => after
  | .error _ after => after

/-- The machine after a call. -/
def Call.leave : Call → Machine → Machine
  | interpret levels rounds statements => leftBy (runProgram levels rounds statements)
  | evaluate levels expr => leftBy (valueOf levels expr)
  | source limits rounds treatment text => leftBy (Session.run limits rounds treatment text)

/-- The machine after some calls, one after the other. -/
def leaveAll (calls : List Call) (machine : Machine) : Machine :=
  calls.foldl (fun machine call => call.leave machine) machine

theorem Restores.leftBy {α : Type} {run : Run α} (restores : Restores run) {machine : Machine}
    (standing : Standing machine) : Restored machine (leftBy run machine) := by
  have ends := restores machine standing
  unfold Evaluation.leftBy
  generalize run machine = result at ends
  cases ends with
  | value restored | abort restored => exact restored

theorem Call.restored (call : Call) {machine : Machine} (standing : Standing machine) :
    Restored machine (call.leave machine) := by
  cases call with
  | interpret levels rounds statements =>
      exact (Restores.runProgram levels rounds statements).leftBy standing
  | evaluate levels expr => exact (Restores.evaluate levels expr).leftBy standing
  | source limits rounds treatment text =>
      exact (Restores.session limits rounds treatment text).leftBy standing

theorem restored_leaveAll (calls : List Call) {machine : Machine} (standing : Standing machine) :
    Restored machine (leaveAll calls machine) := by
  induction calls generalizing machine with
  | nil => exact .refl machine
  | cons call calls inductionHypothesis =>
      have restored := call.restored standing
      exact restored.trans (inductionHypothesis (restored.standing standing))

theorem standing_initial (tracing : Bool) : Standing (Machine.initial tracing) where
  ordered := Scope.Arena.Built.initial.ordered
  anchored := .outermost List.mem_cons_self

end TreeWalker.Evaluation
