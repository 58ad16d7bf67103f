import TreeWalker.Proofs.Evaluation.Safety

/-!
# The calls of a run

Running a tree starts runs of the trees it is made of, one after the other, each
on the machine that the ones before it have left.  Between two of them at most one
operation on the scopes takes place.  So what holds whenever a tree is started,
and again when it has ended, holds at every moment of a run.

What a tree of a source is, and that the machine it is started on has proper
values and its scopes in order, passes from each run to those it starts.
-/

namespace TreeWalker.Evaluation

variable {α : Type}

/-! ## Calls -/

/-- A tree that is run: an expression for its value, or a statement for its effect,
with the number of levels it may go down. -/
inductive Task where
  | value (levels : Nat) (expr : Node)
  | effect (levels : Nat) (statement : Node)

/-- Of statements that are run in order, one is started on a machine. -/
inductive Starts (run : Node → Run Unit) : List Node → Machine → Node → Machine → Prop where
  | first {statement : Node} {statements : List Node} {machine : Machine} :
    Starts run (statement :: statements) machine statement machine
  | later {statement other : Node} {statements : List Node} {machine middle start : Machine}
    (runs : run statement machine = .ok () middle)
    (starts : Starts run statements middle other start) :
    Starts run (statement :: statements) machine other start

/-- A round of a loop begins on a machine, after some rounds before it. -/
inductive Begins (test : Run Value) (body : Run Unit) : Nat → Machine → Machine → Prop where
  | first {rounds : Nat} {machine : Machine} : Begins test body (rounds + 1) machine machine
  | later {rounds : Nat} {outcome : Value} {machine tested middle start : Machine}
    (tests : test machine = .ok outcome tested) (passes : outcome.truthy = true)
    (runs : body tested = .ok () middle) (begins : Begins test body rounds middle start) :
    Begins test body (rounds + 1) machine start

/-- The machine on which a statement goes on once it is noted in the trace. -/
def noted (statement : Node) (machine : Machine) : Machine :=
  machine.note ["Executing: " ++ statement.kindName]

/-- A task that was started on a machine starts another one, on another machine. -/
inductive Calls (rounds : Nat) : Task → Machine → Task → Machine → Prop where
  | grouping {levels : Nat} {inner : Node} {machine : Machine} :
    Calls rounds (.value (levels + 1) (.grouping inner)) machine (.value levels inner) machine
  | unary {levels : Nat} {operator : Token} {operand : Node} {machine : Machine} :
    Calls rounds (.value (levels + 1) (.unary operator operand)) machine
      (.value levels operand) machine
  | binaryLeft {levels : Nat} {left right : Node} {operator : Token} {machine : Machine} :
    Calls rounds (.value (levels + 1) (.binary left operator right)) machine
      (.value levels left) machine
  | binaryRight {levels : Nat} {left right : Node} {operator : Token} {value : Value}
    {machine middle : Machine} (runs : evaluate levels left machine = .ok value middle) :
    Calls rounds (.value (levels + 1) (.binary left operator right)) machine
      (.value levels right) middle
  | logicalLeft {levels : Nat} {left right : Node} {operator : Token} {machine : Machine} :
    Calls rounds (.value (levels + 1) (.logical left operator right)) machine
      (.value levels left) machine
  | logicalRight {levels : Nat} {left right : Node} {operator : Token} {value : Value}
    {machine middle : Machine} (runs : evaluate levels left machine = .ok value middle)
    (undecided : decides operator value = false) :
    Calls rounds (.value (levels + 1) (.logical left operator right)) machine
      (.value levels right) middle
  | assign {levels : Nat} {name : Token} {value : Node} {machine : Machine} :
    Calls rounds (.value (levels + 1) (.assign name value)) machine (.value levels value) machine
  | exprStmt {levels : Nat} {expr : Node} {machine : Machine} :
    Calls rounds (.effect (levels + 1) (.exprStmt expr)) machine
      (.value levels expr) (noted (.exprStmt expr) machine)
  | printStmt {levels : Nat} {expr : Node} {machine : Machine} :
    Calls rounds (.effect (levels + 1) (.printStmt expr)) machine
      (.value levels expr) (noted (.printStmt expr) machine)
  | varStmt {levels : Nat} {name : Token} {initializer : Node} {machine : Machine}
    (present : initializer ≠ .absent) :
    Calls rounds (.effect (levels + 1) (.varStmt name initializer)) machine
      (.value levels initializer) (noted (.varStmt name initializer) machine)
  | blockStmt {levels : Nat} {body : List Node} {statement : Node}
    {machine entered start : Machine}
    (enters : enterScope (noted (.blockStmt body) machine) = .ok () entered)
    (starts : Starts (perform rounds levels) body entered statement start) :
    Calls rounds (.effect (levels + 1) (.blockStmt body)) machine (.effect levels statement) start
  | condition {levels : Nat} {condition thenBranch elseBranch : Node} {machine : Machine} :
    Calls rounds (.effect (levels + 1) (.ifStmt condition thenBranch elseBranch)) machine
      (.value levels condition) (noted (.ifStmt condition thenBranch elseBranch) machine)
  | thenBranch {levels : Nat} {condition thenBranch elseBranch : Node} {outcome : Value}
    {machine tested : Machine}
    (tests : evaluate levels condition (noted (.ifStmt condition thenBranch elseBranch) machine) =
      .ok outcome tested) (passes : outcome.truthy = true) :
    Calls rounds (.effect (levels + 1) (.ifStmt condition thenBranch elseBranch)) machine
      (.effect levels thenBranch) tested
  | elseBranch {levels : Nat} {condition thenBranch elseBranch : Node} {outcome : Value}
    {machine tested : Machine}
    (tests : evaluate levels condition (noted (.ifStmt condition thenBranch elseBranch) machine) =
      .ok outcome tested) (fails : outcome.truthy = false) (present : elseBranch ≠ .absent) :
    Calls rounds (.effect (levels + 1) (.ifStmt condition thenBranch elseBranch)) machine
      (.effect levels elseBranch) tested
  | test {levels : Nat} {condition body : Node} {machine start : Machine}
    (begins : Begins (evaluate levels condition) (perform rounds levels body) rounds
      (noted (.whileStmt condition body) machine) start) :
    Calls rounds (.effect (levels + 1) (.whileStmt condition body)) machine
      (.value levels condition) start
  | round {levels : Nat} {condition body : Node} {outcome : Value}
    {machine start tested : Machine}
    (begins : Begins (evaluate levels condition) (perform rounds levels body) rounds
      (noted (.whileStmt condition body) machine) start)
    (tests : evaluate levels condition start = .ok outcome tested)
    (passes : outcome.truthy = true) :
    Calls rounds (.effect (levels + 1) (.whileStmt condition body)) machine
      (.effect levels body) tested

/-- A task that is started somewhere in the run of a program, with so many levels. -/
inductive Reached (limit rounds : Nat) (statements : List Node) (machine : Machine) :
    Task → Machine → Prop where
  | statement {statement : Node} {start : Machine}
    (starts : Starts (perform rounds limit) statements machine statement start) :
    Reached limit rounds statements machine (.effect limit statement) start
  | call {task inner : Task} {start begun : Machine}
    (reached : Reached limit rounds statements machine task start)
    (calls : Calls rounds task start inner begun) :
    Reached limit rounds statements machine inner begun

/-! ## Sound machines -/

/-- A machine with proper values whose current scope is anchored. -/
structure Sound (machine : Machine) : Prop where
  standing : Standing machine
  proper : machine.IsProper

/-- A computation that restores the scopes and ends as it may. -/
structure Safe (tokens : List Token) (good : α → Prop) (run : Run α) : Prop where
  restores : Restores run
  guarded : Guarded tokens good run

/-- A run that has ended with a result of some kind or with a foreseen abort, with
proper values in the scopes, and not because a scope was gone. -/
inductive EndsSafely (tokens : List Token) (good : α → Prop) :
    EStateM.Result Abort Machine α → Prop where
  | value {a : α} {after : Machine} (sound : Sound after) (isGood : good a) :
    EndsSafely tokens good (.ok a after)
  | abort {abort : Abort} {after : Machine} (sound : Sound after)
    (foreseen : abort.Foreseen tokens) (live : ∀ fault, abort ≠ .scope fault) :
    EndsSafely tokens good (.error abort after)

variable {tokens : List Token} {good : α → Prop} {run : Run α} {machine after : Machine}

theorem Sound.note (sound : Sound machine) (lines : List String) : Sound (machine.note lines) :=
  ⟨(Restored.note machine lines).standing sound.standing, sound.proper.note lines⟩

/-- What a safe computation comes to. -/
theorem Safe.ends (safe : Safe tokens good run) (sound : Sound machine) :
    EndsSafely tokens good (run machine) := by
  have restored := safe.restores machine sound.standing
  have ends := safe.guarded machine sound.proper
  generalize run machine = result at restored ends
  cases restored with
  | value restored =>
      cases ends with
      | value proper isGood => exact .value ⟨restored.standing sound.standing, proper⟩ isGood
  | abort restored live =>
      cases ends with
      | abort proper foreseen =>
          exact .abort ⟨restored.standing sound.standing, proper⟩ foreseen live

theorem Safe.sound_of_ok (safe : Safe tokens good run) (sound : Sound machine) {a : α}
    (runs : run machine = .ok a after) : Sound after := by
  have ends := safe.ends sound
  rw [runs] at ends
  cases ends with
  | value sound _ => exact sound

theorem safe_evaluate {expr : Node} (isExpr : expr.IsExpressionOf tokens) (levels : Nat) :
    Safe tokens Value.IsProper (evaluate levels expr) :=
  ⟨.evaluate levels expr, .evaluate isExpr levels⟩

theorem safe_perform {statement : Node} (isStatement : statement.IsStatementOf tokens)
    (rounds levels : Nat) : Safe tokens Any (perform rounds levels statement) :=
  ⟨.perform rounds levels statement, .perform isStatement rounds levels⟩

theorem sound_of_enterScope (sound : Sound machine) (enters : enterScope machine = .ok () after) :
    Sound after := by
  obtain ⟨arena, told, _, opened, opens⟩ := Restores.enterScope_standing sound.standing
  have ends : EndsForeseen [] Any (enterScope machine) := Guarded.enterScope machine sound.proper
  rw [enters] at ends opens
  cases opens
  cases ends with
  | value proper _ => exact ⟨(opened.note [told]).standing sound.standing, proper⟩

theorem Starts.sound {run : Node → Run Unit} {statements : List Node} {statement : Node}
    {start : Machine} (starts : Starts run statements machine statement start)
    (safe : ∀ statement ∈ statements, Safe tokens Any (run statement)) (sound : Sound machine) :
    statement ∈ statements ∧ Sound start := by
  induction starts with
  | first => exact ⟨List.mem_cons_self, sound⟩
  | later runs _ inductionHypothesis =>
      have middle := (safe _ List.mem_cons_self).sound_of_ok sound runs
      obtain ⟨member, found⟩ := inductionHypothesis
        (fun other member => safe other (List.mem_cons_of_mem _ member)) middle
      exact ⟨List.mem_cons_of_mem _ member, found⟩

theorem Begins.sound {test : Run Value} {body : Run Unit} {rounds : Nat} {start : Machine}
    (begins : Begins test body rounds machine start) (tests : Safe tokens Value.IsProper test)
    (runs : Safe tokens Any body) (sound : Sound machine) : Sound start := by
  induction begins with
  | first => exact sound
  | later ran _ did _ inductionHypothesis =>
      exact inductionHypothesis (runs.sound_of_ok (tests.sound_of_ok sound ran) did)

/-! ## From one call to the next -/

/-- The tree of a task is one of a source. -/
def Task.IsOf (tokens : List Token) : Task → Prop
  | value _ expr => expr.IsExpressionOf tokens
  | effect _ statement => statement.IsStatementOf tokens

/-- How a task ends that was started on a machine: an expression has a proper
value. -/
def Task.EndsSafely (tokens : List Token) (rounds : Nat) : Task → Machine → Prop
  | value levels expr, start =>
    Evaluation.EndsSafely tokens Value.IsProper (evaluate levels expr start)
  | effect levels statement, start =>
    Evaluation.EndsSafely tokens Any (perform rounds levels statement start)

theorem Task.IsOf.ends {task : Task} (isOf : task.IsOf tokens) (rounds : Nat)
    (sound : Sound machine) : task.EndsSafely tokens rounds machine := by
  cases task with
  | value levels expr => exact (safe_evaluate isOf levels).ends sound
  | effect levels statement => exact (safe_perform isOf rounds levels).ends sound

/-- A task of a source on a sound machine starts tasks of the source on sound
machines. -/
theorem Calls.sound {rounds : Nat} {task inner : Task} {begun : Machine}
    (calls : Calls rounds task machine inner begun) (isOf : task.IsOf tokens)
    (sound : Sound machine) : inner.IsOf tokens ∧ Sound begun := by
  cases calls with
  | grouping => exact ⟨isOf.grouped, sound⟩
  | unary => exact ⟨isOf.operated, sound⟩
  | binaryLeft => exact ⟨isOf.combined.1, sound⟩
  | binaryRight runs =>
      exact ⟨isOf.combined.2, (safe_evaluate isOf.combined.1 _).sound_of_ok sound runs⟩
  | logicalLeft => exact ⟨isOf.connected.1, sound⟩
  | logicalRight runs _ =>
      exact ⟨isOf.connected.2, (safe_evaluate isOf.connected.1 _).sound_of_ok sound runs⟩
  | assign => exact ⟨isOf.assigned, sound⟩
  | exprStmt => exact ⟨isOf.evaluated, sound.note _⟩
  | printStmt => exact ⟨isOf.printed, sound.note _⟩
  | varStmt present => exact ⟨isOf.initialized present, sound.note _⟩
  | blockStmt enters starts =>
      have inside := sound_of_enterScope (sound.note _) enters
      obtain ⟨member, begun⟩ := starts.sound
        (fun statement member => safe_perform (isOf.inBlock statement member) rounds _) inside
      exact ⟨isOf.inBlock _ member, begun⟩
  | condition => exact ⟨isOf.tested, sound.note _⟩
  | thenBranch tests _ =>
      exact ⟨isOf.ifTrue, (safe_evaluate isOf.tested _).sound_of_ok (sound.note _) tests⟩
  | elseBranch tests _ present =>
      exact ⟨isOf.ifFalse present, (safe_evaluate isOf.tested _).sound_of_ok (sound.note _) tests⟩
  | test begins =>
      obtain ⟨isCondition, isBody⟩ := isOf.looped
      exact ⟨isCondition, begins.sound (safe_evaluate isCondition _)
        (safe_perform isBody rounds _) (sound.note _)⟩
  | round begins tests _ =>
      obtain ⟨isCondition, isBody⟩ := isOf.looped
      have start := begins.sound (safe_evaluate isCondition _) (safe_perform isBody rounds _)
        (sound.note _)
      exact ⟨isBody, (safe_evaluate isCondition _).sound_of_ok start tests⟩

/-- Whatever is started in the run of a program of a source is of the source, and is
started on a sound machine. -/
theorem Reached.sound {limit rounds : Nat} {statements : List Node} {task : Task}
    {start : Machine} (reached : Reached limit rounds statements machine task start)
    (areStatements : ∀ statement ∈ statements, statement.IsStatementOf tokens)
    (sound : Sound machine) : task.IsOf tokens ∧ Sound start := by
  induction reached with
  | statement starts =>
      obtain ⟨member, begun⟩ := starts.sound (fun statement member =>
        safe_perform (areStatements statement member) rounds limit) sound
      exact ⟨areStatements _ member, begun⟩
  | call _ calls inductionHypothesis =>
      obtain ⟨isOf, begun⟩ := inductionHypothesis
      exact calls.sound isOf begun

end TreeWalker.Evaluation
