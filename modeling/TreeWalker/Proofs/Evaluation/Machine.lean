import TreeWalker.Evaluation.Program
import TreeWalker.Proofs.Scope.Stack
import TreeWalker.Proofs.Sequencing

/-!
# Machines and environments

A machine matches an environment if its live scopes are a stack with the frames
of the environment and its current scope is the top of the stack.  What runs on
such a machine changes the bindings, prints lines and adds to the trace, but it
leaves the same scopes live, one inside the other, and the same one current.  A
block opens a scope on top and takes it away again, however its body ends.
-/

namespace TreeWalker.Evaluation

open Scope (Bindings Handle Stacked skeleton globalHandle)
open Reference (Frame Environment)

/-- The live scopes are a stack with the frames of the environment. -/
structure Matches (machine : Machine) (env : Environment) : Prop where
  stacked : Stacked machine.arena.scopes machine.current env
  below : machine.current < machine.arena.next

/-- What has become of a machine: it matches the environment, has printed the
lines, and has the same scopes as before. -/
structure Reaches (machine after : Machine) (lines : List String) (env : Environment) :
    Prop where
  matched : Matches after env
  scopes : skeleton after.arena.scopes = skeleton machine.arena.scopes
  current : after.current = machine.current
  output : after.output.toList = machine.output.toList ++ lines

namespace Reaches

variable {machine middle after : Machine} {lines lines' : List String} {env env' : Environment}

theorem refl (matched : Matches machine env) : Reaches machine machine [] env :=
  ⟨matched, rfl, rfl, (List.append_nil _).symm⟩

theorem trans (first : Reaches machine middle lines env)
    (second : Reaches middle after lines' env') :
    Reaches machine after (lines ++ lines') env' where
  matched := second.matched
  scopes := second.scopes.trans first.scopes
  current := second.current.trans first.current
  output := by rw [second.output, first.output, List.append_assoc]

/-- What was only noted in the trace does not count. -/
theorem note (matched : Matches machine env) (lines : List String) :
    Reaches machine (machine.note lines) [] env := by
  unfold Machine.note
  split
  · exact ⟨⟨matched.stacked, matched.below⟩, rfl, rfl, (List.append_nil _).symm⟩
  · exact refl matched

/-- A printed line. -/
theorem print (matched : Matches machine env) (line : String) :
    Reaches machine (machine.print line) [line] env :=
  ⟨⟨matched.stacked, matched.below⟩, rfl, rfl, by simp [Machine.print]⟩

end Reaches

/-! ## Variables -/

section Variables

variable {machine : Machine} {env : Environment}

theorem readVariable_apply (matched : Matches machine env) (name : Token) :
    readVariable name machine =
      match Reference.read? name.lexeme env with
      | some value => .ok value machine
      | none => .error (.fault name.line (.undefined name.lexeme)) machine := by
  rw [readVariable, get_bind_apply, Scope.Arena.lookup, matched.stacked.climb_value]
  cases Reference.read? name.lexeme env <;> rfl

theorem writeVariable_apply_some {name : Token} {value : Value} {env' : Environment}
    (matched : Matches machine env)
    (written : Reference.write? name.lexeme value env = some env') :
    ∃ after, writeVariable name value machine = .ok () after ∧ Reaches machine after [] env' := by
  rcases matched.stacked.climb_resolver_some written with ⟨target, climbs, _, bound⟩
  have updates : machine.arena.update machine.current name.lexeme value =
      .ok (some (machine.arena.bindAt target name.lexeme value)) :=
    Scope.Arena.update_of_resolve climbs value
  refine ⟨{ machine with arena := machine.arena.bindAt target name.lexeme value }, ?_, ?_⟩
  · rw [writeVariable, get_bind_apply, updates]
    rfl
  · exact ⟨⟨bound, matched.below⟩, Scope.skeleton_bindIn _ _ _ _, rfl, (List.append_nil _).symm⟩

theorem writeVariable_apply_none {name : Token} {value : Value} (matched : Matches machine env)
    (unbound : Reference.write? name.lexeme value env = none) :
    writeVariable name value machine =
      .error (.fault name.line (.undefined name.lexeme)) machine := by
  have updates : machine.arena.update machine.current name.lexeme value = .ok none :=
    Scope.Arena.update_of_resolve (matched.stacked.climb_resolver_none unbound) value
  rw [writeVariable, get_bind_apply, updates]
  rfl

/-- The current scope is live. -/
theorem Matches.isLive (matched : Matches machine env) :
    machine.arena.isLive machine.current = true := by
  rcases matched.stacked.exists_entry with ⟨entry, older, split, same⟩
  simp [Scope.Arena.isLive, Scope.Arena.entry?, split, same]

theorem declareVariable_apply (matched : Matches machine env) (name : Token) (value : Value) :
    ∃ after, declareVariable name value machine = .ok () after ∧
      Reaches machine after [] (Reference.declare name.lexeme value env) := by
  refine ⟨{ machine with arena := machine.arena.bindAt machine.current name.lexeme value }, ?_, ?_⟩
  · rw [declareVariable, get_bind_apply, Scope.Arena.declare, if_pos matched.isLive]
    rfl
  · exact ⟨⟨matched.stacked.declare _ _, matched.below⟩, Scope.skeleton_bindIn _ _ _ _, rfl,
      (List.append_nil _).symm⟩

end Variables

/-! ## Blocks -/

section Blocks

variable {machine : Machine} {env : Environment}

/-- Opening a scope puts an empty frame on top. -/
theorem enterScope_apply (matched : Matches machine env) :
    ∃ entered, enterScope machine = .ok () entered ∧ Matches entered (∅ :: env) ∧
      entered.arena.scopes =
        ⟨entered.current, some machine.current, []⟩ :: machine.arena.scopes ∧
      entered.output = machine.output := by
  have nests : machine.arena.nest machine.current = .ok (machine.arena.next,
      ⟨⟨machine.arena.next, some machine.current, []⟩ :: machine.arena.scopes,
        machine.arena.next + 1⟩) := by
    rw [Scope.Arena.nest, if_pos matched.isLive]
  let entered : Machine := { machine with
    arena := ⟨⟨machine.arena.next, some machine.current, []⟩ :: machine.arena.scopes,
      machine.arena.next + 1⟩
    current := machine.arena.next }
  have enteredMatched : Matches entered (∅ :: env) :=
    ⟨.inner matched.stacked matched.below (Scope.agree_frame []), Int.lt_succ _⟩
  rcases enteredMatched.stacked.climbDepth with ⟨depth, climbs⟩
  have opens : enterScope machine = (do
      if entered.tracing then
        let depth ← onScopes (Scope.climbDepth entered.arena.scopes entered.current)
        trace ("  Entered scope " ++ toString entered.current ++ " (depth " ++ toString depth ++
          ")")
      : Run Unit) entered := by
    rw [enterScope, get_bind_apply, nests]
    rfl
  cases tracing : entered.tracing with
  | false =>
      refine ⟨entered, ?_, enteredMatched, rfl, rfl⟩
      rw [opens, tracing]
      rfl
  | true =>
      let told :=
        "  Entered scope " ++ toString entered.current ++ " (depth " ++ toString depth ++ ")"
      refine ⟨entered.note [told], ?_, (Reaches.note enteredMatched _).matched, ?_, ?_⟩
      · rw [opens, tracing, climbs]
        rfl
      · rw [Machine.note, tracing]
        rfl
      · rw [Machine.note, tracing]
        rfl

/-- Closing the scope on top takes away the innermost frame. -/
theorem leaveScope_apply {outer : Handle} {bindings : Bindings} {older : List Scope.Entry}
    (matched : Matches machine env)
    (scopes : machine.arena.scopes = ⟨machine.current, some outer, bindings⟩ :: older) :
    ∃ frame outerEnv left, env = frame :: outerEnv ∧ leaveScope outer machine = .ok () left ∧
      Matches left outerEnv ∧ left.arena.scopes = older ∧ left.current = outer ∧
      left.output = machine.output := by
  have stacked := matched.stacked
  rw [scopes] at stacked
  obtain ⟨frame, outerEnv, split, newer, outerStacked⟩ := stacked.outer
  have notGlobal : machine.current ≠ globalHandle :=
    Int.ne_of_gt (Int.lt_of_le_of_lt outerStacked.global_le newer)
  have kept : machine.arena.scopes.filter (·.handle != machine.current) = older := by
    rw [scopes, List.filter_cons_of_neg (by simp), List.filter_eq_self]
    intro entry member
    have below := Int.lt_of_le_of_lt (outerStacked.handle_le entry member) newer
    simpa using Int.ne_of_lt below
  have discards : machine.arena.discard machine.current =
      .ok (some outer, { machine.arena with scopes := older }) := by
    rw [Scope.Arena.discard, if_neg notGlobal, Scope.Arena.entry?, kept, scopes]
    simp
  let left : Machine := { machine with
    arena := { machine.arena with scopes := older }
    current := outer }
  have leftMatched : Matches left outerEnv := ⟨outerStacked, Int.lt_trans newer matched.below⟩
  have noted := Reaches.note leftMatched ["  Restored scope " ++ toString outer]
  refine ⟨frame, outerEnv, left.note ["  Restored scope " ++ toString outer], split, ?_,
    noted.matched, ?_, noted.current, ?_⟩
  · rw [leaveScope, get_bind_apply]
    change (onScopes (machine.arena.discard machine.current) >>= _) _ = _
    rw [discards]
    rfl
  · unfold Machine.note
    split <;> rfl
  · unfold Machine.note
    split <;> rfl

/-- Whatever runs between the opening and the closing of a scope, the scopes are
in the end what they were before. -/
theorem Reaches.leaveScope {entered after : Machine} {lines : List String}
    (opened : entered.arena.scopes =
      ⟨entered.current, some machine.current, []⟩ :: machine.arena.scopes)
    (output : entered.output = machine.output) (reaches : Reaches entered after lines env) :
    ∃ frame outerEnv left, env = frame :: outerEnv ∧
      leaveScope machine.current after = .ok () left ∧ Reaches machine left lines outerEnv := by
  have scopes := reaches.scopes
  rw [opened, skeleton, skeleton, List.map_cons] at scopes
  obtain ⟨⟨handle, parent, bindings⟩, older, split, same, olderSame⟩ :=
    List.map_eq_cons_iff.mp scopes
  rcases Prod.mk.inj same with ⟨rfl, rfl⟩
  rw [← reaches.current] at split
  obtain ⟨frame, outerEnv, left, rfl, leaves, matched, leftScopes, current, leftOutput⟩ :=
    leaveScope_apply reaches.matched split
  refine ⟨frame, outerEnv, left, rfl, leaves, matched, ?_, current, ?_⟩
  · rw [leftScopes]
    exact olderSame
  · rw [leftOutput, reaches.output, output]

end Blocks

end TreeWalker.Evaluation
