import TreeWalker.Proofs.Evaluation.Steps

/-!
# Where variables are declared

Only a declaration adds a name to a scope, and it adds it to the scope it runs in.  An
assignment finds a variable that is there, and a block declares its variables in a scope
that is gone when it ends.  So an expression, and a statement that is no declaration, leave
all scopes with the names they had, however they end.  What is changed at all are
values in the scopes that enclose the current one.
-/

namespace TreeWalker.Evaluation

open Scope (Anchored Arena Encloses Handle Ordered globalHandle)

/-- No scope has other names than before but perhaps the current one, and this only if it is
not closed.  The scopes that do not enclose the current one are as before. -/
structure Contained (closed : Prop) (machine after : Machine) : Prop
    extends Restored machine after where
  names : ∀ handle, closed ∨ handle ≠ machine.current →
    after.arena.namesAt handle = machine.arena.namesAt handle
  aside : ∀ handle, ¬ Encloses machine.arena.links handle machine.current →
    after.arena.entry? handle = machine.arena.entry? handle

/-- Nothing but values in the scopes is changed, and this only in scopes that enclose the
current one. -/
structure Reassigned (machine after : Machine) : Prop extends Contained True machine after where
  elsewhere : after = { machine with arena := after.arena }
  unspent : after.arena.next = machine.arena.next

variable {closed : Prop} {machine middle after : Machine}

namespace Contained

theorem of_same_arena (current : after.current = machine.current)
    (arena : after.arena = machine.arena) : Contained closed machine after where
  current := current
  links := by rw [arena]
  next := by rw [arena]
  names _ _ := by rw [arena]
  aside _ _ := by rw [arena]

theorem trans (first : Contained closed machine middle) (second : Contained closed middle after) :
    Contained closed machine after where
  toRestored := first.toRestored.trans second.toRestored
  names handle kept := by
    have keptThen : closed ∨ handle ≠ middle.current := by rwa [first.current]
    exact (second.names handle keptThen).trans (first.names handle kept)
  aside handle others := by
    have othersThen : ¬ Encloses middle.arena.links handle middle.current := by
      rwa [first.links, first.current]
    exact (second.aside handle othersThen).trans (first.aside handle others)

/-- A variable that is given another value is bound already, in a scope on the way
outward. -/
theorem assign {name : String} {target : Handle} (value : Value) (standing : Standing machine)
    (resolves : machine.arena.resolve machine.current name = .ok (some target)) :
    Contained closed machine
      { machine with arena := machine.arena.bindAt target name value } where
  current := rfl
  links := Arena.links_bindAt _ _ _ _
  next := Int.le_refl _
  names handle _ := by
    obtain ⟨_, entry, live, bound⟩ := Arena.faces_of_resolve standing.ordered resolves
    exact Arena.namesAt_bindAt live bound
  aside handle others := by
    obtain ⟨faces, _⟩ := Arena.faces_of_resolve standing.ordered resolves
    refine Arena.entry?_bindAt_of_ne fun here => others ?_
    rw [here]
    exact faces.encloses

theorem declare (name : String) (value : Value) (isOpen : ¬ closed) :
    Contained closed machine
      { machine with arena := machine.arena.bindAt machine.current name value } where
  current := rfl
  links := Arena.links_bindAt _ _ _ _
  next := Int.le_refl _
  names handle kept := by
    rw [Arena.namesAt, Arena.entry?_bindAt_of_ne (kept.resolve_left isOpen), Arena.namesAt]
  aside handle others := by
    refine Arena.entry?_bindAt_of_ne fun here => others ?_
    rw [here]
    exact .here

/-- What was declared in a block is gone with its scope, and what does not enclose the
current scope does not enclose that one. -/
theorem outside (standing : Standing machine) (related : Contained False machine.inside after) :
    Contained closed machine (after.outside machine.current) := by
  have isInner : after.current = machine.arena.next := related.current
  have inner := machine.inside_entered.standing standing
  obtain ⟨_, member⟩ := standing.anchored.exists_mem
  have older := standing.ordered.below _ member
  have same (handle : Handle) :
      Arena.entry? (after.outside machine.current).arena handle =
        if handle = machine.arena.next then none else after.arena.entry? handle := by
    rw [Machine.outside, isInner]
    split
    · next here => rw [here, Arena.entry?_without]
    · next other => exact Arena.entry?_without_of_ne other
  -- The handle of the block's scope is live neither before the block nor after it, so only
  -- the other handles are to be looked at.
  refine ⟨related.toRestored.outside standing, fun handle _ => ?_, fun handle others => ?_⟩
  · rw [Arena.namesAt, same]
    split
    · next here => rw [here, Arena.namesAt, Arena.entry?_next standing.ordered]
    · next other =>
        have kept := related.names handle (.inr other)
        rwa [Arena.namesAt, Arena.namesAt, Machine.inside, Arena.entry?_opened_of_ne other] at kept
  · rw [same]
    split
    · next here => rw [here, Arena.entry?_next standing.ordered]
    · next other =>
        have kept := related.aside handle fun encloses =>
          others (encloses.of_push standing.ordered older other)
        rwa [Machine.inside, Arena.entry?_opened_of_ne other] at kept

end Contained

namespace Reassigned

theorem refl (machine : Machine) : Reassigned machine machine where
  toContained := .of_same_arena rfl rfl
  elsewhere := rfl
  unspent := rfl

theorem trans (first : Reassigned machine middle) (second : Reassigned middle after) :
    Reassigned machine after where
  toContained := first.toContained.trans second.toContained
  elsewhere := by
    rw [second.elsewhere, first.elsewhere]
  unspent := second.unspent.trans first.unspent

end Reassigned

/-! ## Runs -/

/-- Expressions change nothing but values. -/
theorem valueLaw_reassigned : ValueLaw (fun _ => True) Standing Reassigned where
  refl _ := .refl _
  trans := .trans
  onward standing related := related.standing standing
  assign value standing _ resolves := ⟨.assign value standing resolves, rfl, rfl⟩

/-- Expressions that assign to no variable change nothing at all. -/
theorem valueLaw_eq : ValueLaw (fun _ => False) (fun _ => True) Eq where
  refl _ := rfl
  trans := Eq.trans
  onward _ _ := trivial
  assign _ _ isAssignable _ := isAssignable.elim

/-- Declarations are made in open scopes only. -/
theorem effectLaw_contained : EffectLaw Standing Contained where
  values _ :=
    { refl := fun _ => .of_same_arena rfl rfl
      trans := .trans
      onward := fun standing related => related.standing standing
      assign := fun value standing _ resolves => .assign value standing resolves }
  standing := id
  restored := Contained.toRestored
  note {machine} _ lines _ := .of_same_arena (machine.note_current lines) (machine.note_arena lines)
  print _ _ _ := .of_same_arena rfl rfl
  declare name value isOpen _ := .declare name value isOpen
  inside {machine} standing := machine.inside_entered.standing standing
  outside _ standing related := .outside standing related

/-- However it ends, an expression leaves every scope with the names it had and changes
only values, in scopes that enclose the current one; if no part of it is an assignment
it changes nothing.  However it ends, a statement of a parsed program that is no
declaration leaves every scope with the names it had, and the scopes that do not enclose the
current one as they were. -/
theorem declares_in_own_scope {machine : Machine}
    (ordered : Ordered machine.arena.links machine.arena.next)
    (anchored : Anchored machine.arena.links machine.current) (rounds levels : Nat) :
    (∀ expr : Node,
      let after := leftBy (evaluate levels expr) machine
      (∀ handle, after.arena.namesAt handle = machine.arena.namesAt handle) ∧
        (∀ handle, ¬ Encloses machine.arena.links handle machine.current →
          after.arena.entry? handle = machine.arena.entry? handle) ∧
        after.arena.links = machine.arena.links ∧ after.arena.next = machine.arena.next ∧
        after = { machine with arena := after.arena } ∧
        ((∀ name value, ¬ (Node.assign name value).IsPartOf expr) → after = machine)) ∧
      ∀ limit tokens root, root ∈ (Grammar.Parsed.ofProgram limit tokens).result →
        ∀ statement : Node, statement.IsPartOf root →
          (∀ name initializer, statement ≠ .varStmt name initializer) →
          let after := leftBy (perform rounds levels statement) machine
          (∀ handle, after.arena.namesAt handle = machine.arena.namesAt handle) ∧
            ∀ handle, ¬ Encloses machine.arena.links handle machine.current →
              after.arena.entry? handle = machine.arena.entry? handle := by
  have standing : Standing machine := ⟨ordered, anchored⟩
  refine ⟨fun expr => ?_, fun limit tokens root member statement isPart noDeclaration => ?_⟩
  · have reassigned : Reassigned machine (leftBy (evaluate levels expr) machine) :=
      Keeps.evaluate valueLaw_reassigned levels (fun _ _ => trivial) machine standing
    refine ⟨fun handle => reassigned.names handle (.inl trivial), reassigned.aside,
      reassigned.links, reassigned.unspent, reassigned.elsewhere, fun noAssignment => ?_⟩
    refine (Keeps.evaluate valueLaw_eq levels (fun target member => ?_) machine trivial).symm
    obtain ⟨name, value, _, isAssignment⟩ := Node.exists_assign_of_mem_targets member
    exact noAssignment name value isAssignment
  · have declaresNothing : statement.DeclaresNothing := by
      rcases Grammar.declaresNothing_of_parsed member isPart with ⟨name, initializer, same⟩ | holds
      · exact absurd same (noDeclaration name initializer)
      · exact holds
    have contained : Contained True machine (leftBy (perform rounds levels statement) machine) :=
      effectLaw_contained.perform rounds levels (fun _ => declaresNothing) machine standing
    exact ⟨fun handle => contained.names handle (.inl trivial), contained.aside⟩

/-- A machine with a variable, two scopes beside each other, and the older of them
current. -/
def forkedMachine : Machine :=
  { Machine.initial false with
    arena := Arena.initial.afterAll [.declare 0 "a" (.boolean true), .nest 0, .nest 0]
    current := 1 }

/-- An assignment to the global variable and a block with a variable of that name bind no
name anywhere. -/
theorem declares_in_own_scope_forked :
    Ordered forkedMachine.arena.links forkedMachine.arena.next ∧
      Anchored forkedMachine.arena.links forkedMachine.current ∧
      (leftBy (evaluate 2 (.assign (Grammar.letter "a") (.literal .nil)))
        forkedMachine).arena.valueAt 0 "a" = some .nil ∧
      (∀ handle, (leftBy (evaluate 2 (.assign (Grammar.letter "a") (.literal .nil)))
        forkedMachine).arena.namesAt handle = forkedMachine.arena.namesAt handle) ∧
      ∀ block ∈ blockStatements, (leftBy (perform 0 3 block) forkedMachine).output = #["nil"] ∧
        ∀ handle, (leftBy (perform 0 3 block) forkedMachine).arena.namesAt handle =
          forkedMachine.arena.namesAt handle := by
  have ordered : Ordered forkedMachine.arena.links forkedMachine.arena.next :=
    (Arena.Built.initial.afterAll _).ordered
  have isOutermost : (globalHandle, none) ∈ forkedMachine.arena.links := by decide
  have isInside : (1, some globalHandle) ∈ forkedMachine.arena.links := by decide
  have anchored : Anchored forkedMachine.arena.links forkedMachine.current :=
    .inner isInside (.outermost isOutermost)
  have parsed : (Grammar.Parsed.ofProgram 100 (blockBody ++ [Grammar.blankToken .eof])).result =
      blockStatements := rfl
  have expressions := (declares_in_own_scope ordered anchored 0 2).1
  have statements := (declares_in_own_scope ordered anchored 0 3).2
  refine ⟨ordered, anchored, by decide +kernel, (expressions _).1, fun block member => ⟨?_, ?_⟩⟩
  · cases List.mem_singleton.mp member
    decide +kernel
  · cases List.mem_singleton.mp member
    exact (statements 100 _ _ (parsed ▸ member) _ .whole fun _ _ => Node.noConfusion).1

end TreeWalker.Evaluation
