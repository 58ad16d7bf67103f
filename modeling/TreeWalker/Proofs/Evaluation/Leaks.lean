import TreeWalker.Proofs.Evaluation.Tolls
import TreeWalker.Proofs.Session.Debugging

/-!
# Scopes that are left open

Where the lines of a trace take levels, a run may be given up in the line about a scope that
was just opened.  The block has not come to the part that is sure to discard that scope, so
it is left open, and the block around discards it in place of its own.  From there on each
block discards its own scope again.  So in the end one scope more is live than before, and
no other way to end a run leaves one.
-/

namespace TreeWalker

namespace Evaluation

open Scope (Anchored Handle Ordered globalHandle)

/-- One scope was left open: it is live besides the scopes from before, and newer.  The
current scope is the one from before, or the one that was left open. -/
structure Leaked (link : Handle × Option Handle) (machine after : Machine) : Prop where
  links : after.arena.links = link :: machine.arena.links
  ordered : Ordered after.arena.links after.arena.next
  next : machine.arena.next ≤ after.arena.next
  current : after.current = machine.current ∨ after.current = link.1

theorem Leaked.after {link : Handle × Option Handle} {machine middle after : Machine}
    (first : Restored machine middle) (leaked : Leaked link middle after) :
    Leaked link machine after where
  links := first.links ▸ leaked.links
  ordered := leaked.ordered
  next := Int.le_trans first.next leaked.next
  current := first.current ▸ leaked.current

theorem Leaked.note {link : Handle × Option Handle} {machine after : Machine}
    (leaked : Leaked link machine after) (lines : List String) :
    Leaked link machine (after.note lines) where
  links := by rw [Machine.note_arena, leaked.links]
  ordered := by
    rw [Machine.note_arena]
    exact leaked.ordered
  next := by
    rw [Machine.note_arena]
    exact leaked.next
  current := by
    rw [Machine.note_current]
    exact leaked.current

/-- However a run ends, the scopes are restored, unless it was given up for its nesting.  Then
one scope may have been left open. -/
inductive EndsTolled {α : Type} (machine : Machine) : EStateM.Result Abort Machine α → Prop where
  | restored {result : EStateM.Result Abort Machine α} (ends : EndsRestored machine result) :
    EndsTolled machine result
  | leaked {link : Handle × Option Handle} {after : Machine} (leaked : Leaked link machine after) :
    EndsTolled machine (.error .overNested after)

/-- However a program ends, the scopes are restored, unless it was stopped for its nesting.
Then one scope may have been left open. -/
inductive ProgramEndsTolled (machine : Machine) :
    EStateM.Result Abort Machine (Option Diagnostic) → Prop where
  | restored {result : EStateM.Result Abort Machine (Option Diagnostic)}
    (ends : EndsRestored machine result) : ProgramEndsTolled machine result
  | leaked {link : Handle × Option Handle} {diagnostic : Diagnostic} {after : Machine}
    (isNesting : diagnostic.message = nestingMessage) (leaked : Leaked link machine after) :
    ProgramEndsTolled machine (.ok (some diagnostic) after)

theorem ProgramEndsTolled.after {machine middle : Machine}
    {result : EStateM.Result Abort Machine (Option Diagnostic)} (first : Restored machine middle)
    (ends : ProgramEndsTolled middle result) : ProgramEndsTolled machine result := by
  cases ends with
  | restored ends => exact .restored (ends.after first)
  | leaked isNesting leaked => exact .leaked isNesting (leaked.after first)

theorem EndsTolled.after {α : Type} {machine middle : Machine}
    {result : EStateM.Result Abort Machine α} (first : Restored machine middle)
    (ends : EndsTolled middle result) : EndsTolled machine result := by
  cases ends with
  | restored ends => exact .restored (ends.after first)
  | leaked leaked => exact .leaked (leaked.after first)

/-- From every machine whose current scope is anchored, a computation ends so. -/
def Tolled {α : Type} (run : Run α) : Prop :=
  ∀ machine, Standing machine → EndsTolled machine (run machine)

/-! ## Blocks -/

section Blocks

variable {link : Handle × Option Handle} {machine entered after : Machine}

/-- However the line about it ends, a scope is current again and the one that was is
discarded. -/
theorem leaveTolled_ends {parent : Option Handle} {arena : Scope.Arena} (toll levels : Nat)
    (outer : Handle) (discards : after.arena.discard after.current = .ok (parent, arena)) :
    ∃ left, (leaveTolled toll levels outer after = .ok () left ∨
        leaveTolled toll levels outer after = .error .overNested left) ∧
      left.current = outer ∧ left.arena = arena := by
  let discarded : Machine := { after with arena, current := outer }
  have leaves : leaveTolled toll levels outer after = (do
      spend toll levels
      trace ("  Restored scope " ++ toString outer) : Run Unit) discarded := by
    rw [leaveTolled, get_bind_apply]
    change (onScopes (after.arena.discard after.current) >>= _) _ = _
    rw [discards]
    rfl
  by_cases short : discarded.tracing = true ∧ levels < toll
  · have spends := spend_of_short short.1 short.2
    exact ⟨discarded, .inr (by rw [leaves, bind_apply_error spends]), rfl, rfl⟩
  · have spends := spend_of_paid fun wanted => Nat.not_lt.mp (not_and.mp short wanted)
    refine ⟨discarded.note ["  Restored scope " ++ toString outer], .inl ?_, ?_, ?_⟩
    · rw [leaves, bind_apply_ok spends]
      rfl
    · rw [Machine.note_current]
    · rw [Machine.note_arena]

/-- A block discards the scope that it has opened. -/
theorem leaveTolled_restored (standing : Standing machine)
    (opened : Restores.Entered machine entered) (restored : Restored entered after)
    (toll levels : Nat) :
    ∃ left, (leaveTolled toll levels machine.current after = .ok () left ∨
        leaveTolled toll levels machine.current after = .error .overNested left) ∧
      Restored machine left := by
  have inside := restored.standing (opened.standing standing)
  have newest := restored.links.trans opened.links
  have current := restored.current.trans opened.current
  have inner : machine.arena.next ≠ globalHandle := Int.ne_of_gt standing.ordered.global
  obtain ⟨parent, arena, discards, links, next⟩ :=
    Scope.Arena.discard_live [] inside.ordered newest inner
  rw [← current] at discards
  obtain ⟨left, leaves, isCurrent, rfl⟩ := leaveTolled_ends toll levels machine.current discards
  refine ⟨left, leaves, isCurrent, links, ?_⟩
  have skipped := restored.next
  rw [opened.next] at skipped
  rw [next]
  exact Int.le_trans (Int.le_of_lt (Int.lt_succ _)) skipped

/-- A block in which a scope was left open discards that one or its own, and leaves the other
one open. -/
theorem leaveTolled_leaked (standing : Standing machine)
    (opened : Restores.Entered machine entered) (leaked : Leaked link entered after)
    (toll levels : Nat) :
    ∃ other left, (leaveTolled toll levels machine.current after = .ok () left ∨
        leaveTolled toll levels machine.current after = .error .overNested left) ∧
      Leaked other machine left ∧ left.current = machine.current := by
  have ordered := leaked.ordered
  have live : after.arena.links = link :: (machine.arena.next, some machine.current) ::
      machine.arena.links := by
    rw [leaked.links, opened.links]
  have positive := standing.ordered.global
  have less : machine.arena.next < link.1 := by
    rw [live] at ordered
    exact (List.pairwise_cons.mp ordered.falling).1 _ List.mem_cons_self
  -- What is left open is the scope that is not current.
  obtain ⟨other, fewer, parent, arena, discards, links, next⟩ : ∃ other,
      (other :: machine.arena.links).Sublist after.arena.links ∧ ∃ parent arena,
        after.arena.discard after.current = .ok (parent, arena) ∧
          arena.links = other :: machine.arena.links ∧ arena.next = after.arena.next := by
    rcases leaked.current with own | last
    · rw [own, opened.current]
      exact ⟨link, live ▸ (List.sublist_cons_self _ _).cons_cons link,
        Scope.Arena.discard_live [link] ordered live (Int.ne_of_gt positive)⟩
    · rw [last]
      exact ⟨_, live ▸ List.sublist_cons_self link _,
        Scope.Arena.discard_live [] ordered live
          (Int.ne_of_gt (Int.lt_trans positive less))⟩
  obtain ⟨left, leaves, isCurrent, rfl⟩ := leaveTolled_ends toll levels machine.current discards
  have ahead := leaked.next
  rw [opened.next] at ahead
  refine ⟨other, left, leaves, ⟨links, ?_, ?_, .inl isCurrent⟩, isCurrent⟩
  · rw [links, next]
    exact ordered.sublist fewer
  · rw [next]
    exact Int.le_trans (Int.le_of_lt (Int.lt_succ _)) ahead

/-- A scope is opened and left so if no level is left for the line about it. -/
theorem enterTolled_of_short {toll levels : Nat} (standing : Standing machine)
    (wanted : machine.tracing = true) (short : levels < toll) :
    enterTolled toll levels machine = .error .overNested machine.inside := by
  have live := Scope.Arena.isLive_iff.mpr standing.anchored.exists_mem
  rw [enterTolled, get_bind_apply, Scope.Arena.nest_of_live live]
  change (spend toll levels >>= _) machine.inside = _
  exact bind_apply_error (spend_of_short wanted short)

theorem leaked_inside (standing : Standing machine) :
    Leaked (machine.arena.next, some machine.current) machine machine.inside where
  links := rfl
  ordered := (machine.inside_entered.standing standing).ordered
  next := Int.le_of_lt (Int.lt_succ _)
  current := .inr rfl

/-- A block in which a scope was left open leaves one open itself, and has the scope from
before as the current one. -/
theorem inTolledScope_leaked {tolls : Tolls} {levels : Nat} {body : Run Unit}
    (standing : Standing machine) (opened : Restores.Entered machine entered)
    (enters : enterTolled tolls.entering levels machine = .ok () entered)
    (ends : body entered = .error .overNested after) (leaked : Leaked link entered after) :
    ∃ other left, inTolledScope tolls levels body machine = .error .overNested left ∧
      Leaked other machine left ∧ left.current = machine.current := by
  obtain ⟨other, left, leaves, back, current⟩ :=
    leaveTolled_leaked standing opened leaked tolls.leaving levels
  refine ⟨other, left, ?_, back, current⟩
  rw [inTolledScope, get_bind_apply, bind_apply_ok enters, andFinally, ends]
  rcases leaves with leaves | leaves <;> simp only [leaves]

end Blocks

namespace Tolled

variable {α β : Type} {run : Run α} {next : α → Run β}

theorem of_restores (restores : Restores run) : Tolled run :=
  fun machine standing => .restored (restores machine standing)

theorem overNested : Tolled (throw .overNested : Run α) :=
  of_restores (.throw fun _ => Abort.noConfusion)

theorem spend (toll levels : Nat) : Tolled (spend toll levels) := by
  intro machine standing
  rw [spend_apply]
  split
  · exact overNested machine standing
  · exact of_restores (.pure ()) machine standing

theorem bind (first : Tolled run) (second : ∀ a, Tolled (next a)) : Tolled (run >>= next) := by
  intro machine standing
  rw [bind_apply]
  have ends := first machine standing
  generalize run machine = result at ends
  cases ends with
  | leaked leaked => exact .leaked leaked
  | restored ends =>
      cases ends with
      | value restored => exact (second _ _ (restored.standing standing)).after restored
      | abort restored live => exact .restored (.abort restored live)

theorem inTolledScope {body : Run Unit} (inside : Tolled body) (tolls : Tolls) (levels : Nat) :
    Tolled (inTolledScope tolls levels body) := by
  intro machine standing
  by_cases short : machine.tracing = true ∧ levels < tolls.entering
  · rw [Evaluation.inTolledScope, get_bind_apply,
      bind_apply_error (enterTolled_of_short standing short.1 short.2)]
    exact .leaked (leaked_inside standing)
  · obtain ⟨told, opens⟩ := enterScope_eq_inside standing
    have opened := machine.inside_entered.note [told]
    have paid (wanted : machine.tracing = true) : tolls.entering ≤ levels :=
      Nat.not_lt.mp (not_and.mp short wanted)
    have enters := (enterTolled_of_paid paid).trans opens
    have ends := inside _ (opened.standing standing)
    generalize ended : body (machine.inside.note [told]) = result at ends
    cases ends with
    | leaked leaked =>
        obtain ⟨_, left, run, back, _⟩ := inTolledScope_leaked standing opened enters ended leaked
        rw [run]
        exact .leaked back
    | restored ends =>
        rw [Evaluation.inTolledScope, get_bind_apply, bind_apply_ok enters, andFinally, ended]
        refine .restored ?_
        cases ends with
        | value restored =>
            obtain ⟨left, leaves | leaves, back⟩ :=
              leaveTolled_restored standing opened restored tolls.leaving levels
            · simp only [leaves]
              exact .value back
            · simp only [leaves]
              exact .abort back fun _ => Abort.noConfusion
        | abort restored live =>
            obtain ⟨left, leaves | leaves, back⟩ :=
              leaveTolled_restored standing opened restored tolls.leaving levels
            · simp only [leaves]
              exact .abort back live
            · simp only [leaves]
              exact .abort back fun _ => Abort.noConfusion

/-! ## Trees -/

theorem whileTruthy {test : Run Value} {body : Run Unit} (tests : Restores test)
    (runs : Tolled body) (rounds : Nat) : Tolled (whileTruthy test body rounds) := by
  induction rounds with
  | zero => exact of_restores (.throw fun _ => Abort.noConfusion)
  | succ rounds inductionHypothesis =>
      refine (of_restores tests).bind fun outcome => ?_
      split
      · exact runs.bind fun _ => inductionHypothesis
      · exact of_restores (.pure ())

theorem inOrder {run : Node → Run Unit} (runs : ∀ statement, Tolled (run statement))
    (statements : List Node) : Tolled (inOrder run statements) := by
  induction statements with
  | nil => exact of_restores (.pure ())
  | cons statement statements inductionHypothesis =>
      exact (runs statement).bind fun _ => inductionHypothesis

theorem performTolled (tolls : Tolls) (rounds levels : Nat) (node : Node) :
    Tolled (performTolled tolls rounds levels node) := by
  induction levels generalizing node with
  | zero => exact overNested
  | succ levels inductionHypothesis =>
      have traces (line : String) : Tolled (trace line) := of_restores (.trace line)
      have leaf : Restores (performBy rounds (evaluate levels) (perform rounds levels) node) :=
        perform_succ rounds levels node ▸ .perform rounds (levels + 1) node
      have evaluates (expr : Node) : Restores (evaluate levels expr) := .evaluate levels expr
      cases node with
      | blockStmt body =>
          exact (spend _ _).bind fun _ => (traces _).bind fun _ =>
            inTolledScope (inOrder inductionHypothesis body) tolls levels
      | ifStmt condition thenBranch elseBranch =>
          rw [performTolled_other _ _ _ fun _ => Node.noConfusion]
          refine (spend _ _).bind fun _ => (traces _).bind fun _ =>
            (of_restores (evaluates condition)).bind fun outcome => ?_
          split
          · exact inductionHypothesis thenBranch
          · cases elseBranch with
            | absent => exact of_restores (.pure ())
            | _ => exact inductionHypothesis _
      | whileStmt condition body =>
          exact (spend _ _).bind fun _ => (traces _).bind fun _ =>
            whileTruthy (evaluates condition) (inductionHypothesis body) rounds
      -- No other statement holds statements.
      | varStmt name initializer =>
          cases initializer <;> exact (spend _ _).bind fun _ => of_restores leaf
      | _ => exact (spend _ _).bind fun _ => of_restores leaf

/-- A program goes on while the scopes are restored. -/
theorem runTolled (tolls : Tolls) (levels rounds : Nat) (statements : List Node)
    {machine : Machine} (standing : Standing machine) :
    ProgramEndsTolled machine (runTolled tolls levels rounds statements machine) := by
  induction statements generalizing machine with
  | nil => exact .restored (.value (.refl machine))
  | cons statement statements inductionHypothesis =>
      have ends := performTolled tolls rounds levels statement machine standing
      rw [Evaluation.runTolled]
      cases runs : Evaluation.performTolled tolls rounds levels statement machine with
      | ok _ after =>
          rw [runProgramBy_cons_of_ok runs]
          cases runs ▸ ends with
          | restored ends =>
              cases ends with
              | value restored =>
                  exact (inductionHypothesis (restored.standing standing)).after restored
      | error abort after =>
          rw [runProgramBy_cons_of_error runs]
          cases runs ▸ ends with
          | leaked leaked => exact .leaked rfl (leaked.note _)
          | restored ends =>
              cases ends with
              | abort restored live =>
                  exact .restored ((Restores.diagnose live statement _
                    (restored.standing standing)).after restored)

end Tolled

/-! ## Programs and sessions -/

theorem leaveAllTolled_of_spare {tolls : Tolls} (calls : List Call) {machine : Machine}
    (standing : Standing machine) (spare : tolls.Spare machine) :
    leaveAllTolled tolls calls machine = leaveAll calls machine := by
  induction calls generalizing machine with
  | nil => rfl
  | cons call calls inductionHypothesis =>
      change leaveAllTolled tolls calls (call.leaveTolled tolls machine) = _
      rw [call.leaveTolled_of_spare standing spare]
      have wanted := (OnlyNotes.call call machine).tracing
      exact inductionHypothesis ((call.restored standing).standing standing)
        fun tells => spare (wanted ▸ tells)

/-- However a statement, a block or a program ends, and whatever it looks like, the scopes of
the machine are restored, unless a line of its trace takes levels and the nesting goes too
deep.  Then one scope may be left open.  So between the calls of an interpreter whose lines
are free the global scope is the current one, and no other is live. -/
theorem scopes_restored {machine : Machine}
    (ordered : Ordered machine.arena.links machine.arena.next)
    (anchored : Anchored machine.arena.links machine.current) (tolls : Tolls)
    (rounds levels : Nat) :
    (∀ statement,
      let result := performTolled tolls rounds levels statement machine
      EndsTolled machine result ∧ (tolls.Spare machine → EndsRestored machine result)) ∧
    (∀ body,
      let result :=
        inTolledScope tolls levels (inOrder (performTolled tolls rounds levels) body) machine
      EndsTolled machine result ∧ (tolls.Spare machine → EndsRestored machine result)) ∧
    (∀ statements,
      let result := runTolled tolls levels rounds statements machine
      ProgramEndsTolled machine result ∧ (tolls.Spare machine → EndsRestored machine result)) ∧
    ∀ tracing calls, tolls.Spare (.initial tracing) →
      let after := leaveAllTolled tolls calls (.initial tracing)
      after.current = globalHandle ∧ after.arena.links = [(globalHandle, none)] := by
  have standing : Standing machine := ⟨ordered, anchored⟩
  refine ⟨fun statement => ⟨?_, fun spare => ?_⟩, fun body => ⟨?_, fun spare => ?_⟩,
    fun statements => ⟨?_, fun spare => ?_⟩, fun tracing calls spare => ?_⟩
  · exact Tolled.performTolled tolls rounds levels statement machine standing
  · rw [performTolled_of_spare standing spare]
    exact Restores.perform rounds levels statement machine standing
  · exact Tolled.inTolledScope (.inOrder (.performTolled tolls rounds levels) body) tolls levels
      machine standing
  · rw [inTolledScope_inOrder standing spare fun stands spares statement =>
      performTolled_of_spare stands spares rounds levels statement]
    exact Restores.inOwnScope (.inOrder (.perform rounds levels) body) machine standing
  · exact Tolled.runTolled tolls levels rounds statements standing
  · rw [runTolled_of_spare standing spare]
    exact Restores.runProgram levels rounds statements machine standing
  · have fresh := standing_initial tracing
    have restored := restored_leaveAll calls fresh
    rw [leaveAllTolled_of_spare calls fresh spare]
    exact ⟨restored.current, restored.links⟩

/-- A machine inside a block, without a trace. -/
def innerMachine : Machine :=
  { Machine.initial false with
    arena := ⟨[⟨1, some globalHandle, []⟩, ⟨globalHandle, none, []⟩], 2⟩
    current := 1 }

/-- A block that is not well formed restores the scopes inside another block. -/
theorem scopes_restored_inner :
    Ordered innerMachine.arena.links innerMachine.arena.next ∧
      Anchored innerMachine.arena.links innerMachine.current ∧
      (⟨1, 2, 1⟩ : Tolls).Spare innerMachine ∧
      EndsRestored innerMachine
        (performTolled ⟨1, 2, 1⟩ 0 2 (.blockStmt [.exprStmt (.literal .nil), .absent])
          innerMachine) := by
  have opens : Scope.Arena.initial.nest globalHandle = .ok (1, innerMachine.arena) := rfl
  have ordered := (Scope.Arena.Built.initial.nested opens).ordered
  have outer : Anchored innerMachine.arena.links globalHandle :=
    .outermost (List.mem_cons_of_mem _ List.mem_cons_self)
  have anchored : Anchored innerMachine.arena.links innerMachine.current :=
    .inner List.mem_cons_self outer
  have spare : (⟨1, 2, 1⟩ : Tolls).Spare innerMachine := fun wanted => nomatch wanted
  exact ⟨ordered, anchored, spare, ((scopes_restored ordered anchored ⟨1, 2, 1⟩ 0 2).1 _).2 spare⟩

/-! ## A scope that is left open -/

/-- So many blocks inside one another, around an empty one. -/
def nestedBlocks : (count : Nat) → Node
  | 0 => .blockStmt []
  | count + 1 => .blockStmt [nestedBlocks count]

theorem nestedBlocks_isBlock (count : Nat) : ∃ body, nestedBlocks count = .blockStmt body := by
  cases count <;> exact ⟨_, rfl⟩

section Leaks

variable {tolls : Tolls} {rounds levels : Nat} {machine : Machine}

/-- A block that has no level left for the line about its scope leaves that scope open. -/
theorem block_leaks (standing : Standing machine) (wanted : machine.tracing = true)
    (told : tolls.executing ≤ levels) (short : levels < tolls.entering) (body : List Node) :
    ∃ link after, performTolled tolls rounds (levels + 1) (.blockStmt body) machine =
      .error .overNested after ∧ Leaked link machine after := by
  have begun : Restored machine (noted (.blockStmt body) machine) := .note machine _
  have stands := begun.standing standing
  have enters := enterTolled_of_short stands ((tracing_note machine _).trans wanted) short
  refine ⟨_, _, ?_, (leaked_inside stands).after begun⟩
  rw [performTolled_blockStmt, bind_apply_ok (spend_of_paid fun _ => told)]
  change inTolledScope tolls levels _ (noted (.blockStmt body) machine) = _
  rw [inTolledScope, get_bind_apply, bind_apply_error enters]

/-- A block leaves a scope open if its first statement does. -/
theorem block_leaks_of_inner (standing : Standing machine) (wanted : machine.tracing = true)
    (told : tolls.executing ≤ levels) (paid : tolls.entering ≤ levels) {statement : Node}
    (inner : ∀ entered, Standing entered → entered.tracing = true → ∃ link after,
      performTolled tolls rounds levels statement entered = .error .overNested after ∧
        Leaked link entered after) (others : List Node) :
    ∃ link after,
      performTolled tolls rounds (levels + 1) (.blockStmt (statement :: others)) machine =
        .error .overNested after ∧
      Leaked link machine after ∧ after.current = machine.current := by
  let begun : Machine := noted (.blockStmt (statement :: others)) machine
  have restored : Restored machine begun := .note machine _
  have stands := restored.standing standing
  obtain ⟨line, opens⟩ := enterScope_eq_inside stands
  have opened := begun.inside_entered.note [line]
  have tells : (begun.inside.note [line]).tracing = true :=
    (tracing_note begun.inside [line]).trans ((tracing_note machine _).trans wanted)
  obtain ⟨link, after, runs, leaked⟩ := inner _ (opened.standing stands) tells
  have ends : inOrder (performTolled tolls rounds levels) (statement :: others)
      (begun.inside.note [line]) = .error .overNested after := bind_apply_error runs
  obtain ⟨other, left, leaves, back, current⟩ :=
    inTolledScope_leaked stands opened ((enterTolled_of_paid fun _ => paid).trans opens) ends leaked
  refine ⟨other, left, ?_, back.after restored, current.trans restored.current⟩
  rw [performTolled_blockStmt, bind_apply_ok (spend_of_paid fun _ => told)]
  exact leaves

/-- On a machine that traces, more blocks inside one another than there are levels for the
lines about their scopes leave one of these scopes open. -/
theorem nestedBlocks_leak (dearer : tolls.executing < tolls.entering)
    (room : tolls.entering < levels) {count : Nat} (deep : levels ≤ tolls.entering + count)
    (standing : Standing machine) (wanted : machine.tracing = true) :
    ∃ link after,
      performTolled tolls rounds levels (nestedBlocks count) machine =
        .error .overNested after ∧
      Leaked link machine after ∧ after.current = machine.current := by
  obtain ⟨more, rfl⟩ := Nat.exists_eq_add_of_lt room
  obtain ⟨fewer, rfl⟩ : ∃ fewer, count = fewer + 1 := ⟨count - 1, by omega⟩
  induction more generalizing fewer machine with
  | zero =>
      refine block_leaks_of_inner standing wanted (Nat.le_of_lt dearer) (Nat.le_refl _)
        (fun entered stands tells => ?_) []
      obtain ⟨last, isLast⟩ := Nat.exists_eq_add_of_lt dearer
      obtain ⟨body, isBlock⟩ := nestedBlocks_isBlock fewer
      rw [isBlock, isLast]
      exact block_leaks stands tells (Nat.le_add_right _ last) (by omega) body
  | succ more inductionHypothesis =>
      obtain ⟨less, rfl⟩ : ∃ less, fewer = less + 1 := ⟨fewer - 1, by omega⟩
      refine block_leaks_of_inner standing wanted (by omega) (by omega)
        (fun entered stands tells => ?_) []
      obtain ⟨link, after, runs, leaked, _⟩ :=
        inductionHypothesis stands tells (by omega) less (by omega)
      exact ⟨link, after, runs, leaked⟩

/-- A program is stopped where a statement is nested too deeply. -/
theorem runTolled_of_overNested {statement : Node} {after : Machine}
    (runs : performTolled tolls rounds levels statement machine = .error .overNested after)
    (others : List Node) :
    runTolled tolls levels rounds (statement :: others) machine =
      stopWith (statement.leadingLine 1) nestingMessage "nesting too deep" after := by
  rw [runTolled, runProgramBy_cons_of_error runs]
  rfl

end Leaks

/-- A thousand blocks inside one another, on a new machine that traces, with levels as there
are in practice: the nesting is reported, and a scope is left open. -/
theorem scope_left_open :
    ∃ link diagnostic after,
      runTolled ⟨1, 2, 1⟩ Limits.practical.running 0 [nestedBlocks 1000] (.initial true) =
        .ok (some diagnostic) after ∧
      diagnostic.message = "Nesting too deep." ∧ after.current = globalHandle ∧
      after.arena.links = [link, (globalHandle, none)] := by
  obtain ⟨link, after, runs, leaked, current⟩ : ∃ link after,
      performTolled ⟨1, 2, 1⟩ 0 Limits.practical.running (nestedBlocks 1000) (.initial true) =
        .error .overNested after ∧
      Leaked link (.initial true) after ∧ after.current = globalHandle :=
    nestedBlocks_leak (by decide) (by decide) (by decide) (standing_initial true) rfl
  exact ⟨link, _, _, (runTolled_of_overNested runs []).trans rfl, rfl,
    (after.note_current _).trans current, (leaked.note _).links⟩

end Evaluation

end TreeWalker
