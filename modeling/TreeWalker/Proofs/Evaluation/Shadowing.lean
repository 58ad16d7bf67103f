import TreeWalker.Proofs.Evaluation.Steps

/-!
# Shadowed variables

A block that begins with the declaration of a variable has a scope that binds its name.
From then on this scope is on the way outward from the current one, until the block ends.
Whatever is run in between looks for the name from inside, and finds it there or further in.
So the variables of that name in the scopes from before the block keep the values they had
when the declaration was made.
-/

namespace TreeWalker.Evaluation

open Scope (Anchored Arena Encloses Handle Ordered globalHandle)

/-- A scope binds a name and encloses the current one.  In the older scopes the name has
certain values, or is not bound. -/
structure Shadowing (floor : Handle) (name : String) (outer : Handle → Option Value)
    (machine : Machine) : Prop extends Standing machine where
  encloses : Encloses machine.arena.links floor machine.current
  bound : (machine.arena.valueAt floor name).isSome = true
  older : ∀ handle < floor, machine.arena.valueAt handle name = outer handle

namespace Shadowing

variable {floor : Handle} {name : String} {outer : Handle → Option Value}
  {machine after : Machine}

theorem of_same (shadowing : Shadowing floor name outer machine)
    (current : after.current = machine.current) (arena : after.arena = machine.arena) :
    Shadowing floor name outer after := by
  obtain ⟨⟨ordered, anchored⟩, encloses, bound, older⟩ := shadowing
  rw [← arena] at ordered anchored encloses bound older
  rw [← current] at anchored encloses
  exact ⟨⟨ordered, anchored⟩, encloses, bound, older⟩

/-- A binding of the name that is no older than the scope, or one of another name. -/
theorem bindAt (shadowing : Shadowing floor name outer machine) {other : String}
    {target : Handle} (value : Value) (newer : name = other → floor ≤ target) :
    Shadowing floor name outer
      { machine with arena := machine.arena.bindAt target other value } where
  ordered := Arena.ordered_bindAt shadowing.ordered _ _ _
  anchored := by
    rw [Arena.links_bindAt]
    exact shadowing.anchored
  encloses := by
    rw [Arena.links_bindAt]
    exact shadowing.encloses
  bound := Arena.isSome_valueAt_bindAt shadowing.bound
  older handle isOlder := by
    rw [← shadowing.older handle isOlder]
    refine Arena.valueAt_bindAt_of_other ?_
    rintro ⟨same, rfl⟩
    exact absurd isOlder (Int.not_lt.mpr (newer same))

/-- The name is found in the scope or further in. -/
theorem assign (shadowing : Shadowing floor name outer machine) {other : String}
    {target : Handle} (value : Value)
    (resolves : machine.arena.resolve machine.current other = .ok (some target)) :
    Shadowing floor name outer
      { machine with arena := machine.arena.bindAt target other value } := by
  obtain ⟨faces, _⟩ := Arena.faces_of_resolve shadowing.ordered resolves
  refine shadowing.bindAt value fun same => ?_
  subst same
  exact faces.floor_le shadowing.ordered shadowing.encloses shadowing.bound

theorem declare (shadowing : Shadowing floor name outer machine) (other : String)
    (value : Value) :
    Shadowing floor name outer
      { machine with arena := machine.arena.bindAt machine.current other value } :=
  shadowing.bindAt value fun _ => shadowing.encloses.le shadowing.ordered

theorem floor_lt_next (shadowing : Shadowing floor name outer machine) :
    floor < machine.arena.next := by
  obtain ⟨_, member⟩ := shadowing.anchored.exists_mem
  exact Int.lt_of_le_of_lt (shadowing.encloses.le shadowing.ordered)
    (shadowing.ordered.below _ member)

theorem inside (shadowing : Shadowing floor name outer machine) :
    Shadowing floor name outer machine.inside where
  toStanding := machine.inside_entered.standing shadowing.toStanding
  encloses := .outward List.mem_cons_self shadowing.encloses.cons
  bound := by
    rw [Arena.valueAt, Machine.inside,
      Arena.entry?_opened_of_ne (Int.ne_of_lt shadowing.floor_lt_next)]
    exact shadowing.bound
  older handle isOlder := by
    have other := Int.ne_of_lt (Int.lt_trans isOlder shadowing.floor_lt_next)
    rw [← shadowing.older handle isOlder, Arena.valueAt, Machine.inside,
      Arena.entry?_opened_of_ne other, Arena.valueAt]

/-- A scope that was opened later is discarded. -/
theorem outside (shadowing : Shadowing floor name outer machine)
    (restored : Restored machine.inside after) (ended : Shadowing floor name outer after) :
    Shadowing floor name outer (after.outside machine.current) := by
  have back := restored.outside shadowing.toStanding
  have isInner : after.current = machine.arena.next := restored.current
  have same {handle : Handle} (isOlder : handle < machine.arena.next) :
      (after.outside machine.current).arena.valueAt handle name =
        after.arena.valueAt handle name := by
    rw [Arena.valueAt, Machine.outside, isInner,
      Arena.entry?_without_of_ne (Int.ne_of_lt isOlder), Arena.valueAt]
  refine ⟨back.standing shadowing.toStanding, ?_, ?_, fun handle isOlder => ?_⟩
  · rw [back.links, back.current]
    exact shadowing.encloses
  · rw [same shadowing.floor_lt_next]
    exact ended.bound
  · rw [same (Int.lt_trans isOlder shadowing.floor_lt_next)]
    exact ended.older handle isOlder

end Shadowing

/-- Shadowing lasts from each step to the next. -/
theorem effectLaw_shadowing (floor : Handle) (name : String) (outer : Handle → Option Value) :
    EffectLaw (Shadowing floor name outer) fun _ machine after =>
      Restored machine after ∧ Shadowing floor name outer after where
  values _ :=
    { refl := fun {machine} shadowing => ⟨.refl machine, shadowing⟩
      trans := fun first second => ⟨first.1.trans second.1, second.2⟩
      onward := fun _ related => related.2
      assign := fun value shadowing _ resolves =>
        ⟨⟨rfl, Arena.links_bindAt _ _ _ _, Int.le_refl _⟩, shadowing.assign value resolves⟩ }
  standing := Shadowing.toStanding
  restored := And.left
  note {machine} _ lines shadowing := ⟨.note machine lines,
    shadowing.of_same (machine.note_current lines) (machine.note_arena lines)⟩
  print _ _ shadowing := ⟨⟨rfl, rfl, Int.le_refl _⟩, shadowing.of_same rfl rfl⟩
  declare name value _ shadowing :=
    ⟨⟨rfl, Arena.links_bindAt _ _ _ _, Int.le_refl _⟩, shadowing.declare name value⟩
  inside := .inside
  outside _ shadowing related :=
    ⟨related.1.outside shadowing.toStanding, shadowing.outside related.1 related.2⟩

/-! ## Blocks -/

variable {machine entered declared : Machine} {rounds levels : Nat} {name : Token}
  {initializer : Node} {rest : List Node}

/-- A declaration that has been executed binds its name in the current scope. -/
theorem bound_of_varStmt (standing : Standing machine)
    (declares : perform rounds levels (.varStmt name initializer) machine = .ok () declared) :
    (declared.arena.valueAt machine.current name.lexeme).isSome = true := by
  cases levels with
  | zero => cases declares
  | succ levels =>
      have runs : (initialValue levels initializer >>= fun value => declareVariable name value)
          (noted (.varStmt name initializer) machine) = .ok () declared := declares
      obtain ⟨value, middle, initializes, binds⟩ := bind_eq_ok_iff.mp runs
      have begun : Restored machine (noted (.varStmt name initializer) machine) :=
        .note machine _
      have initialized :=
        (Restores.initialValue levels initializer).leftBy (begun.standing standing)
      rw [leftBy_of_ok initializes] at initialized
      have restored := begun.trans initialized
      have now := restored.standing standing
      obtain ⟨entry, live⟩ := Option.isSome_iff_exists.mp
        (Arena.isLive_iff.mpr now.anchored.exists_mem)
      rw [← leftBy_of_ok binds, leftBy_declareVariable name value now, ← restored.current,
        Arena.valueAt, Arena.entry?_bindAt, live, Option.map_some, Option.bind_some,
        Scope.Entry.value?_rebound (Arena.handle_of_live live), Option.isSome_some]

/-- After its declaration at the beginning of a block, a variable shadows those of the older
scopes. -/
theorem shadowing_of_varStmt (standing : Standing machine)
    (enters : enterScope machine = .ok () entered)
    (declares : perform rounds levels (.varStmt name initializer) entered = .ok () declared) :
    Shadowing machine.arena.next name.lexeme (declared.arena.valueAt · name.lexeme) declared := by
  have opened := entered_of_enterScope standing enters
  have isEntered := opened.standing standing
  have restored := (Restores.perform rounds levels (.varStmt name initializer)).leftBy isEntered
  rw [leftBy_of_ok declares] at restored
  refine ⟨restored.standing isEntered, ?_, ?_, fun _ _ => rfl⟩
  · rw [restored.current, opened.current]
    exact .here
  · have bound := bound_of_varStmt isEntered declares
    rwa [opened.current] at bound

/-- A block whose first statement declares a variable leaves the variables of that name in
the scopes from before the block as they were when the declaration had been executed.  So do
all tasks in the course of its other statements, from their beginning to their end, and
this however they end and the block ends. -/
theorem shadowed_unchanged (ordered : Ordered machine.arena.links machine.arena.next)
    (anchored : Anchored machine.arena.links machine.current)
    (enters : enterScope (noted (.blockStmt (.varStmt name initializer :: rest)) machine) =
      .ok () entered)
    (declares : perform rounds levels (.varStmt name initializer) entered = .ok () declared)
    {handle : Handle} (live : machine.arena.isLive handle = true) :
    (∀ statement start, Starts (perform rounds levels) rest declared statement start →
      ∀ task begun, During rounds (.effect levels statement) start task begun →
        begun.arena.valueAt handle name.lexeme = declared.arena.valueAt handle name.lexeme ∧
          (task.leave rounds begun).arena.valueAt handle name.lexeme =
            declared.arena.valueAt handle name.lexeme) ∧
      (leftBy (perform rounds (levels + 1) (.blockStmt (.varStmt name initializer :: rest)))
        machine).arena.valueAt handle name.lexeme =
          declared.arena.valueAt handle name.lexeme := by
  let block : Node := .blockStmt (.varStmt name initializer :: rest)
  have standing : Standing (noted block machine) :=
    (Restored.note machine _).standing ⟨ordered, anchored⟩
  have sameArena : (noted block machine).arena = machine.arena := machine.note_arena _
  have isOlder : handle < (noted block machine).arena.next := by
    rw [sameArena]
    exact Arena.lt_next_of_isLive ordered live
  have shadowing := shadowing_of_varStmt standing enters declares
  have law := effectLaw_shadowing (noted block machine).arena.next name.lexeme
    (declared.arena.valueAt · name.lexeme)
  have passes := (law.values False).toPasses
  have performs (node : Node) : Keeps _ _ (perform rounds levels node) :=
    law.perform rounds levels False.elim
  refine ⟨fun statement start starts task begun during => ?_, ?_⟩
  · have begins := law.during during (starts.keeps passes performs shadowing)
    exact ⟨begins.older handle isOlder, (law.leave task begins).older handle isOlder⟩
  · have opened := entered_of_enterScope standing enters
    have body : leftBy (inOrder (perform rounds levels) (.varStmt name initializer :: rest))
        entered = leftBy (inOrder (perform rounds levels) rest) declared :=
      leftBy_bind_of_ok declares
    have restored := (Restores.inOrder (Restores.perform rounds levels)
      (.varStmt name initializer :: rest)).leftBy (opened.standing standing)
    have ended := (Keeps.inOrder passes performs rest).onward passes shadowing
    change (leftBy (inOwnScope _) (noted block machine)).arena.valueAt _ _ = _
    rw [leftBy_inOwnScope standing opened enters restored, Machine.note_arena, Machine.outside,
      restored.current, opened.current, Arena.valueAt,
      Arena.entry?_without_of_ne (Int.ne_of_lt isOlder), body]
    exact ended.older handle isOlder

open Grammar (letter)

/-- A machine at the start of a session that has bound one variable. -/
def boundMachine : Machine :=
  { Machine.initial false with arena := Arena.initial.afterAll [.declare 0 "a" (.boolean true)] }

/-- A declaration of that variable, with an assignment to the outer one in it. -/
def shadowingStatement : Node :=
  .varStmt (letter "a") (.assign (letter "a") (.literal (.boolean false)))

/-- The statements `{ var a; a = nil; }`, `a = nil;` and `print b;`. -/
def shadowedStatements : List Node :=
  [.blockStmt [.varStmt (letter "a") .absent, .exprStmt (.assign (letter "a") (.literal .nil))],
    .exprStmt (.assign (letter "a") (.literal .nil)), .printStmt (.reference (letter "b"))]

/-- The outer variable has the value from the declaration when the block is aborted. -/
theorem shadowed_unchanged_sample :
    ∃ entered declared,
      Ordered boundMachine.arena.links boundMachine.arena.next ∧
        Anchored boundMachine.arena.links boundMachine.current ∧
        enterScope (noted (.blockStmt (shadowingStatement :: shadowedStatements)) boundMachine) =
          .ok () entered ∧
        perform 0 4 shadowingStatement entered = .ok () declared ∧
        boundMachine.arena.isLive globalHandle = true ∧
        declared.arena.valueAt globalHandle "a" = some (.boolean false) ∧
        (leftBy (perform 0 5 (.blockStmt (shadowingStatement :: shadowedStatements)))
          boundMachine).arena.valueAt globalHandle "a" =
            declared.arena.valueAt globalHandle "a" := by
  let block : Node := .blockStmt (shadowingStatement :: shadowedStatements)
  let entered : Machine := leftBy enterScope (noted block boundMachine)
  let declared : Machine := leftBy (perform 0 4 shadowingStatement) entered
  have ordered : Ordered boundMachine.arena.links boundMachine.arena.next :=
    (Arena.Built.initial.afterAll _).ordered
  have isOutermost : (globalHandle, none) ∈ boundMachine.arena.links := by decide
  have anchored : Anchored boundMachine.arena.links boundMachine.current :=
    .outermost isOutermost
  have enters : enterScope (noted block boundMachine) = .ok () entered := rfl
  have declares : perform 0 4 shadowingStatement entered = .ok () declared := rfl
  have live : boundMachine.arena.isLive globalHandle = true := by decide
  have unchanged := (shadowed_unchanged ordered anchored enters declares live).2
  exact ⟨entered, declared, ordered, anchored, enters, declares, live, by decide +kernel,
    unchanged⟩

end TreeWalker.Evaluation
