import TreeWalker.Proofs.Evaluation.Machine

/-!
# Runs and their effects

An effect is a relation of the printed lines, the environment left behind and the
outcome.  A computation follows an effect in an environment if on every machine
that matches the environment it ends as the effect allows, and leaves the scopes
as they were.  Where that is allowed it may also end because nesting is too deep,
or because a loop had too few rounds; it never fails in another way.

The rules say which effect a sequence of computations follows, and the block
around one.
-/

namespace TreeWalker.Evaluation

open Reference (Frame Environment Failure)

/-- Printed lines, an environment and an outcome that go together. -/
abbrev Effect (α : Type) :=
  List String → Environment → Reference.Outcome α → Prop

/-- The effect that allows only the given lines, environment and outcome. -/
def Exactly {α : Type} (lines : List String) (env : Environment)
    (outcome : Reference.Outcome α) : Effect α :=
  fun lines' env' outcome' => lines' = lines ∧ env' = env ∧ outcome' = outcome

/-- A run ends as an effect allows, or it stops: because nesting is too deep, if
`deep` allows that, or out of rounds, if `short` does. -/
inductive Ends {α : Type} (deep short : Prop) (effect : Effect α) (machine : Machine) :
    EStateM.Result Abort Machine α → Prop where
  | value {a : α} {after : Machine} {lines : List String} {env : Environment}
    (reaches : Reaches machine after lines env) (allowed : effect lines env (.ok a)) :
    Ends deep short effect machine (.ok a after)
  | fault {line : Int} {fault : Fault} {after : Machine} {lines : List String} {env : Environment}
    (reaches : Reaches machine after lines env)
    (allowed : effect lines env (.error ⟨line, fault⟩)) :
    Ends deep short effect machine (.error (.fault line fault) after)
  | overNested {after : Machine} {lines : List String} {env : Environment}
    (reaches : Reaches machine after lines env) (allowed : deep) :
    Ends deep short effect machine (.error .overNested after)
  | unfinished {after : Machine} {lines : List String} {env : Environment}
    (reaches : Reaches machine after lines env) (allowed : short) :
    Ends deep short effect machine (.error .unfinished after)

namespace Ends

variable {α : Type} {deep deep' short short' : Prop} {effect effect' : Effect α}
  {machine middle : Machine} {result : EStateM.Result Abort Machine α}

theorem imp (ends : Ends deep short effect machine result) (isDeep : deep → deep')
    (isShort : short → short')
    (allowed : ∀ lines env outcome, effect lines env outcome → effect' lines env outcome) :
    Ends deep' short' effect' machine result := by
  cases ends with
  | value reaches holds => exact .value reaches (allowed _ _ _ holds)
  | fault reaches holds => exact .fault reaches (allowed _ _ _ holds)
  | overNested reaches holds => exact .overNested reaches (isDeep holds)
  | unfinished reaches holds => exact .unfinished reaches (isShort holds)

/-- A run that goes on from where another one has come. -/
theorem after {lines : List String} {env : Environment} (first : Reaches machine middle lines env)
    (ends : Ends deep short (fun lines' => effect (lines ++ lines')) middle result) :
    Ends deep short effect machine result := by
  cases ends with
  | value reaches allowed => exact .value (first.trans reaches) allowed
  | fault reaches allowed => exact .fault (first.trans reaches) allowed
  | overNested reaches isDeep => exact .overNested (first.trans reaches) isDeep
  | unfinished reaches isShort => exact .unfinished (first.trans reaches) isShort

end Ends

/-- On every machine that matches the environment, a computation ends as the effect
allows, or stops. -/
def Follows {α : Type} (deep short : Prop) (run : Run α) (env : Environment) (effect : Effect α) :
    Prop :=
  ∀ machine, Matches machine env → Ends deep short effect machine (run machine)

namespace Follows

variable {α β : Type} {deep short : Prop} {run : Run α} {next : α → Run β}
  {env env' env'' : Environment} {lines lines' : List String}

/-! ## Sequences -/

theorem imp {effect effect' : Effect α} (follows : Follows deep short run env effect)
    (allowed : ∀ lines env' outcome, effect lines env' outcome → effect' lines env' outcome) :
    Follows deep short run env effect' :=
  fun machine matched => (follows machine matched).imp id id allowed

theorem weaken {deep' short' : Prop} {effect : Effect α}
    (follows : Follows deep short run env effect) (isDeep : deep → deep')
    (isShort : short → short') : Follows deep' short' run env effect :=
  fun machine matched => (follows machine matched).imp isDeep isShort fun _ _ _ => id

theorem pure {a : α} {effect : Effect α} (allowed : effect [] env (.ok a)) :
    Follows deep short (pure a) env effect :=
  fun _ matched => .value (.refl matched) allowed

theorem bind {effect : Effect α} {effect' : Effect β} (first : Follows deep short run env effect)
    (fails : ∀ lines env' failure, effect lines env' (.error failure) →
      effect' lines env' (.error failure))
    (second : ∀ lines env' a, effect lines env' (.ok a) →
      Follows deep short (next a) env' fun lines' => effect' (lines ++ lines')) :
    Follows deep short (run >>= next) env effect' := by
  intro machine matched
  rw [bind_apply]
  have ends := first machine matched
  generalize run machine = result at ends
  cases ends with
  | value reaches holds => exact (second _ _ _ holds _ reaches.matched).after reaches
  | fault reaches holds => exact .fault reaches (fails _ _ _ holds)
  | overNested reaches isDeep => exact .overNested reaches isDeep
  | unfinished reaches isShort => exact .unfinished reaches isShort

/-- A sequence whose first member comes to a value. -/
theorem bind_ok {a : α} {outcome : Reference.Outcome β}
    (first : Follows deep short run env (Exactly lines env' (.ok a)))
    (second : Follows deep short (next a) env' (Exactly lines' env'' outcome)) :
    Follows deep short (run >>= next) env (Exactly (lines ++ lines') env'' outcome) := by
  refine first.bind ?_ ?_
  · rintro _ _ _ ⟨_, _, impossible⟩
    cases impossible
  · rintro _ _ _ ⟨rfl, rfl, same⟩
    cases same
    apply second.imp
    rintro _ _ _ ⟨rfl, rfl, rfl⟩
    exact ⟨rfl, rfl, rfl⟩

/-- A sequence whose first member comes to a value and prints nothing. -/
theorem bind_silent {a : α} {outcome : Reference.Outcome β}
    (first : Follows deep short run env (Exactly [] env' (.ok a)))
    (second : Follows deep short (next a) env' (Exactly lines env'' outcome)) :
    Follows deep short (run >>= next) env (Exactly lines env'' outcome) :=
  first.bind_ok second

/-- A sequence whose first member fails. -/
theorem bind_error {failure : Failure}
    (first : Follows deep short run env (Exactly lines env' (.error failure))) :
    Follows deep short (run >>= next) env (Exactly lines env' (.error failure)) := by
  refine first.bind ?_ ?_
  · rintro _ _ _ ⟨rfl, rfl, same⟩
    cases same
    exact ⟨rfl, rfl, rfl⟩
  · rintro _ _ _ ⟨_, _, impossible⟩
    cases impossible

/-! ## Operations of the machine -/

theorem overNested {effect : Effect α} (isDeep : deep) :
    Follows deep short (throw .overNested) env effect :=
  fun _ matched => .overNested (.refl matched) isDeep

theorem unfinished {effect : Effect α} (isShort : short) :
    Follows deep short (throw .unfinished) env effect :=
  fun _ matched => .unfinished (.refl matched) isShort

theorem atToken (token : Token) (result : Except Fault α) :
    Follows deep short (atToken token result) env
      (Exactly [] env (Reference.located token result)) := by
  intro machine matched
  cases result with
  | ok a => exact .value (.refl matched) ⟨rfl, rfl, rfl⟩
  | error fault => exact .fault (.refl matched) ⟨rfl, rfl, rfl⟩

theorem trace (line : String) : Follows deep short (trace line) env (Exactly [] env (.ok ())) :=
  fun _ matched => .value (.note matched _) ⟨rfl, rfl, rfl⟩

/-- Nothing depends on the trace. -/
theorem after_trace {effect : Effect α} (line : String)
    (follows : Follows deep short run env effect) :
    Follows deep short (Evaluation.trace line >>= fun _ => run) env effect := by
  refine (trace line).bind ?_ ?_
  · rintro _ _ _ ⟨_, _, impossible⟩
    cases impossible
  · rintro _ _ _ ⟨rfl, rfl, _⟩
    exact follows

theorem printLine (line : String) :
    Follows deep short (printLine line) env (Exactly [line] env (.ok ())) :=
  fun _ matched => .value (.print matched _) ⟨rfl, rfl, rfl⟩

theorem readVariable (name : Token) :
    Follows deep short (readVariable name) env (Exactly [] env (Reference.referred name env)) := by
  intro machine matched
  rw [readVariable_apply matched, Reference.referred]
  cases Reference.read? name.lexeme env with
  | some value => exact .value (.refl matched) ⟨rfl, rfl, rfl⟩
  | none => exact .fault (.refl matched) ⟨rfl, rfl, rfl⟩

theorem writeVariable_some {name : Token} {value : Value}
    (written : Reference.write? name.lexeme value env = some env') :
    Follows deep short (writeVariable name value) env (Exactly [] env' (.ok ())) := by
  intro machine matched
  rcases writeVariable_apply_some matched written with ⟨after, writes, reaches⟩
  rw [writes]
  exact .value reaches ⟨rfl, rfl, rfl⟩

theorem writeVariable_none {name : Token} {value : Value}
    (unbound : Reference.write? name.lexeme value env = none) :
    Follows deep short (writeVariable name value) env
      (Exactly [] env (.error ⟨name.line, .undefined name.lexeme⟩)) := by
  intro machine matched
  rw [writeVariable_apply_none matched unbound]
  exact .fault (.refl matched) ⟨rfl, rfl, rfl⟩

theorem declareVariable (name : Token) (value : Value) :
    Follows deep short (declareVariable name value) env
      (Exactly [] (Reference.declare name.lexeme value env) (.ok ())) := by
  intro machine matched
  rcases declareVariable_apply matched name value with ⟨after, declares, reaches⟩
  rw [declares]
  exact .value reaches ⟨rfl, rfl, rfl⟩

/-! ## Blocks -/

/-- A block has an empty frame of its own, which is dropped however its body
ends. -/
theorem inOwnScope {body : Run Unit} {effect : Effect Unit}
    (follows : Follows deep short body (∅ :: env) effect) :
    Follows deep short (inOwnScope body) env
      fun lines env' outcome => ∃ frame, effect lines (frame :: env') outcome := by
  intro machine matched
  obtain ⟨entered, enters, enteredMatched, opened, output⟩ := enterScope_apply matched
  have runs : Evaluation.inOwnScope body machine =
      andFinally body (leaveScope machine.current) entered := by
    rw [Evaluation.inOwnScope, get_bind_apply]
    exact bind_apply_ok enters
  rw [runs, andFinally]
  have ends := follows entered enteredMatched
  generalize body entered = result at ends
  cases ends with
  | value reaches allowed =>
      rcases reaches.leaveScope opened output with ⟨frame, _, left, rfl, leaves, back⟩
      simp only [leaves]
      exact .value back ⟨frame, allowed⟩
  | fault reaches allowed =>
      rcases reaches.leaveScope opened output with ⟨frame, _, left, rfl, leaves, back⟩
      simp only [leaves]
      exact .fault back ⟨frame, allowed⟩
  | overNested reaches isDeep =>
      rcases reaches.leaveScope opened output with ⟨_, _, left, _, leaves, back⟩
      simp only [leaves]
      exact .overNested back isDeep
  | unfinished reaches isShort =>
      obtain ⟨_, _, left, _, leaves, back⟩ := reaches.leaveScope opened output
      simp only [leaves]
      exact .unfinished back isShort

end Follows

/-! ## Absent parts -/

theorem initialValue_present {initializer : Node} (present : initializer ≠ .absent)
    (levels : Nat) : initialValue levels initializer = evaluate levels initializer := by
  cases initializer with
  | absent => contradiction
  | _ => rfl

/-- What a missing or a present else branch does. -/
def performElse (rounds levels : Nat) : Node → Run Unit
  | .absent => pure ()
  | present => perform rounds levels present

theorem performElse_present {elseBranch : Node} (present : elseBranch ≠ .absent)
    (rounds levels : Nat) :
    performElse rounds levels elseBranch = perform rounds levels elseBranch := by
  cases elseBranch with
  | absent => contradiction
  | _ => rfl

theorem perform_ifStmt (condition thenBranch elseBranch : Node) (rounds levels : Nat) :
    perform rounds (levels + 1) (.ifStmt condition thenBranch elseBranch) = (do
      trace "Executing: If"
      let outcome ← evaluate levels condition
      if outcome.truthy then perform rounds levels thenBranch
      else performElse rounds levels elseBranch) := by
  cases elseBranch <;> rfl

end TreeWalker.Evaluation
