import TreeWalker.Proofs.Evaluation.Completeness
import TreeWalker.Proofs.Evaluation.Soundness
import TreeWalker.Proofs.Grammar.Correctness

/-!
# Programs and their meaning

A program that was parsed without a report means the same to the machine and to
the rules.  Between two programs only the global scope is live, and its bindings
are the whole environment.  From there a run comes to an end just if there is a
derivation, and then it has printed the lines, met the failure and bound the
variables that are derived, as long as the program is not nested too deeply.
-/

namespace TreeWalker.Evaluation

open Reference (Environment Evaluates Executes Frame)
open Scope (globalHandle)

variable {limit : Nat}

/-! ## Machines between two programs -/

/-- Only the global scope is live, and it is the current one. -/
structure TopLevel (machine : Machine) : Prop where
  scopes : ∃ bindings, machine.arena.scopes = [⟨globalHandle, none, bindings⟩]
  current : machine.current = globalHandle
  next : globalHandle < machine.arena.next

/-- The variables of a machine between two programs. -/
def globalsOf (machine : Machine) : Frame :=
  machine.arena.globals.frame

theorem topLevel_initial (tracing : Bool) : TopLevel (Machine.initial tracing) :=
  ⟨⟨[], rfl⟩, rfl, Int.lt_succ globalHandle⟩

section TopLevel

variable {machine after : Machine} {lines : List String} {env : Environment}

theorem globalsOf_eq {bindings : Scope.Bindings}
    (scopes : machine.arena.scopes = [⟨globalHandle, none, bindings⟩]) :
    globalsOf machine = bindings.frame := by
  simp [globalsOf, Scope.Arena.globals, Scope.Arena.entry?, scopes]

theorem TopLevel.matched (topLevel : TopLevel machine) : Matches machine [globalsOf machine] := by
  rcases topLevel.scopes with ⟨bindings, scopes⟩
  constructor
  · rw [scopes, topLevel.current, globalsOf_eq scopes]
    exact .global (Scope.agree_frame bindings)
  · rw [topLevel.current]
    exact topLevel.next

/-- What runs between two programs leaves a machine between two programs. -/
theorem TopLevel.of_reaches (topLevel : TopLevel machine)
    (reaches : Reaches machine after lines env) : TopLevel after ∧ env = [globalsOf after] := by
  rcases topLevel.scopes with ⟨bindings, scopes⟩
  have skeletons := reaches.scopes
  rw [scopes, Scope.skeleton, Scope.skeleton] at skeletons
  obtain ⟨⟨handle, parent, afterBindings⟩, older, split, same, noOlder⟩ :=
    List.map_eq_cons_iff.mp skeletons
  rcases Prod.mk.inj same with ⟨rfl, rfl⟩
  rw [List.map_eq_nil_iff.mp noOlder] at split
  have current : after.current = globalHandle := reaches.current.trans topLevel.current
  have below := reaches.matched.below
  rw [current] at below
  refine ⟨⟨⟨afterBindings, split⟩, current, below⟩, ?_⟩
  have stacked := reaches.matched.stacked
  rw [split, current] at stacked
  rw [globalsOf_eq split]
  exact stacked.eq_frame

end TopLevel

/-! ## Whole programs -/

/-- The diagnostic of a run with the given outcome. -/
def diagnosticOf : Reference.Outcome Unit → Option Diagnostic
  | .ok () => none
  | .error failure => some ⟨.runtime, failure.line, "", failure.fault.message⟩

/-- What a finished run tells: how it came out, the lines it has printed, and the
variables it has left, which are all global. -/
structure Tells (machine : Machine) (problem : Option Diagnostic) (after : Machine)
    (lines : List String) (env : Environment) (outcome : Reference.Outcome Unit) : Prop where
  problem : problem = diagnosticOf outcome
  output : after.output.toList = machine.output.toList ++ lines
  globals : env = [globalsOf after]
  topLevel : TopLevel after

theorem runProgram_cons (rounds : Nat) (statement : Node) (statements : List Node)
    (machine : Machine) : runProgram limit rounds (statement :: statements) machine =
      match perform rounds limit statement machine with
      | .ok () after => runProgram limit rounds statements after
      | .error abort after => diagnose statement abort after :=
  rfl

/-- Statements run as a program are statements run in order, whose abort is told as
a diagnostic. -/
theorem runProgram_apply (limit rounds : Nat) (statements : List Node) (machine : Machine) :
    match inOrder (perform rounds limit) statements machine with
    | .ok () after => runProgram limit rounds statements machine = .ok none after
    | .error abort after =>
      ∃ statement, runProgram limit rounds statements machine = diagnose statement abort after := by
  induction statements generalizing machine with
  | nil => rfl
  | cons statement statements inductionHypothesis =>
      rw [inOrder, bind_apply]
      cases first : perform rounds limit statement machine with
      | ok value middle =>
          rw [runProgram_cons, first]
          exact inductionHypothesis middle
      | error abort middle =>
          refine ⟨statement, ?_⟩
          rw [runProgram_cons, first]

theorem stopWith_apply {machine : Machine} {env : Environment} (line : Int)
    (message noted : String) (matched : Matches machine env) :
    ∃ after, stopWith line message noted machine =
      .ok (some ⟨.runtime, line, "", message⟩) after ∧ Reaches machine after [] env :=
  ⟨_, rfl, .note matched _⟩

/-- How a program ends whose statements follow an effect. -/
theorem runProgram_of_follows {deep short : Prop} {rounds : Nat} {statements : List Node}
    {machine : Machine} {effect : Effect Unit} (topLevel : TopLevel machine)
    (follows : Follows deep short (inOrder (perform rounds limit) statements)
      [globalsOf machine] effect) :
    (∃ problem after lines env outcome,
        runProgram limit rounds statements machine = .ok problem after ∧ effect lines env outcome ∧
        Tells machine problem after lines env outcome) ∨
      (deep ∧ ∃ problem after,
        runProgram limit rounds statements machine = .ok (some problem) after ∧
        problem.message = nestingMessage ∧ TopLevel after) ∨
      (short ∧ ∃ after, runProgram limit rounds statements machine = .error .unfinished after) := by
  have ends := follows machine topLevel.matched
  have runs := runProgram_apply limit rounds statements machine
  generalize inOrder (perform rounds limit) statements machine = result at ends runs
  cases ends with
  | value reaches allowed =>
      obtain ⟨afterTopLevel, globals⟩ := topLevel.of_reaches reaches
      exact Or.inl ⟨_, _, _, _, _, runs, allowed, rfl, reaches.output, globals, afterTopLevel⟩
  | @fault line fault after _ _ reaches allowed =>
      rcases runs with ⟨statement, run⟩
      obtain ⟨told, stops, noted⟩ :=
        stopWith_apply line fault.message fault.message reaches.matched
      have reached := reaches.trans noted
      rw [List.append_nil] at reached
      rcases topLevel.of_reaches reached with ⟨afterTopLevel, globals⟩
      exact Or.inl ⟨_, _, _, _, _, run.trans stops, allowed, rfl, reached.output, globals,
        afterTopLevel⟩
  | overNested reaches isDeep =>
      rcases runs with ⟨statement, run⟩
      obtain ⟨told, stops, noted⟩ := stopWith_apply (statement.leadingLine 1) nestingMessage
        "nesting too deep" reaches.matched
      have afterTopLevel := (topLevel.of_reaches (reaches.trans noted)).1
      exact Or.inr (Or.inl ⟨isDeep, _, _, run.trans stops, rfl, afterTopLevel⟩)
  | unfinished _ isShort =>
      rcases runs with ⟨statement, run⟩
      exact Or.inr (Or.inr ⟨isShort, _, run⟩)

/-! ## Nesting -/

/-- No run of a program with so many levels ends because it is nested too deeply. -/
def Shallow (limit : Nat) (statements : List Node) (machine : Machine) : Prop :=
  ∀ rounds problem after, runProgram limit rounds statements machine = .ok (some problem) after →
    problem.message ≠ nestingMessage

/-- No fault is worded like nesting that is too deep. -/
theorem message_ne_nestingMessage (fault : Fault) : fault.message ≠ nestingMessage := by
  intro same
  have first : fault.message.toList.head? = some 'N' := by
    rw [same]
    rfl
  cases fault with
  | operand | operands | divisionByZero => exact absurd same (by decide)
  | addition left right =>
      change ("Operands must be two numbers or two strings (got " ++ left ++ " and " ++ right ++
        ").").toList.head? = some 'N' at first
      simp at first
  | undefined name =>
      change ("Undefined variable '" ++ name ++ "'.").toList.head? = some 'N' at first
      simp at first
  | unaryOperator lexeme =>
      change ("Unknown unary operator '" ++ lexeme ++ "'.").toList.head? = some 'N' at first
      simp at first
  | binaryOperator lexeme =>
      change ("Unknown binary operator '" ++ lexeme ++ "'.").toList.head? = some 'N' at first
      simp at first

section Refinement

variable {statements : List Node} {machine : Machine}

/-- A program whose trees are no deeper than the limit is not nested too deeply. -/
theorem shallow_of_depth (canonical : Node.AreCanonical statements) (topLevel : TopLevel machine)
    (fits : Node.depthOfAll statements ≤ limit) : Shallow limit statements machine := by
  intro rounds problem after run
  have nested : limit < Node.depthOfAll statements → False := Nat.not_lt.mpr fits
  have follows := follows_program limit rounds canonical nested [globalsOf machine]
  rcases runProgram_of_follows topLevel follows with
    ⟨_, _, _, _, outcome, told, _, tells⟩ | ⟨impossible, _⟩ | ⟨_, _, unfinished⟩
  · rw [run] at told
    rcases EStateM.Result.ok.inj told with ⟨rfl, rfl⟩
    cases outcome with
    | ok => exact absurd tells.problem (by simp [diagnosticOf])
    | error failure =>
        cases Option.some.inj tells.problem
        exact message_ne_nestingMessage failure.fault
  · exact impossible.elim
  · rw [run] at unfinished
    cases unfinished

/-- A program leaves a machine between two programs. -/
theorem topLevel_of_runProgram {rounds : Nat} {problem : Option Diagnostic} {after : Machine}
    (canonical : Node.AreCanonical statements) (topLevel : TopLevel machine)
    (run : runProgram limit rounds statements machine = .ok problem after) : TopLevel after := by
  have follows := follows_program limit rounds canonical (fun _ => trivial) [globalsOf machine]
  rcases runProgram_of_follows topLevel follows with ⟨_, _, _, _, _, told, _, tells⟩ |
    ⟨_, _, _, told, _, afterTopLevel⟩ | ⟨_, _, unfinished⟩
  · rw [run] at told
    rcases EStateM.Result.ok.inj told with ⟨rfl, rfl⟩
    exact tells.topLevel
  · rw [run] at told
    obtain ⟨rfl, rfl⟩ := EStateM.Result.ok.inj told
    exact afterTopLevel
  · rw [run] at unfinished
    cases unfinished

/-! ## The refinement -/

/-- How a run of canonical statements ends. -/
theorem runProgram_sound (rounds : Nat) (canonical : Node.AreCanonical statements)
    (topLevel : TopLevel machine) (shallow : Shallow limit statements machine) :
    (∃ problem after lines env outcome,
        runProgram limit rounds statements machine = .ok problem after ∧
        Executes (.all statements) [globalsOf machine] lines env outcome ∧
        Tells machine problem after lines env outcome) ∨
      ∃ after, runProgram limit rounds statements machine = .error .unfinished after := by
  have follows := follows_program limit rounds canonical (fun _ => trivial) [globalsOf machine]
  rcases runProgram_of_follows topLevel follows with told |
    ⟨_, problem, after, run, nested, _⟩ | ⟨_, unfinished⟩
  · exact Or.inl told
  · exact absurd nested (shallow rounds problem after run)
  · exact Or.inr unfinished

/-- How runs of statements with a derivation end. -/
theorem runProgram_complete {lines : List String} {env : Environment}
    {outcome : Reference.Outcome Unit} (topLevel : TopLevel machine)
    (shallow : Shallow limit statements machine)
    (executes : Executes (.all statements) [globalsOf machine] lines env outcome) :
    ∃ bound, ∀ rounds,
      (∃ problem after, runProgram limit rounds statements machine = .ok problem after ∧
        Tells machine problem after lines env outcome) ∨
      (rounds < bound ∧
        ∃ after, runProgram limit rounds statements machine = .error .unfinished after) := by
  rcases comes_of_executes executes with ⟨bound, comes⟩
  refine ⟨bound, fun rounds => ?_⟩
  rcases runProgram_of_follows topLevel (comes rounds limit rounds) with
    ⟨problem, after, _, _, _, run, ⟨rfl, rfl, rfl⟩, tells⟩ |
    ⟨_, problem, after, run, nested, _⟩ | ⟨isShort, unfinished⟩
  · exact Or.inl ⟨problem, after, run, tells⟩
  · exact absurd nested (shallow rounds problem after run)
  · exact Or.inr ⟨by omega, unfinished⟩

/-- The run of a program with so many levels comes to an end whatever the number of
rounds, if only there are enough of them. -/
def Halts (limit : Nat) (statements : List Node) (machine : Machine) : Prop :=
  ∃ bound, ∀ rounds, bound ≤ rounds →
    ∃ problem after, runProgram limit rounds statements machine = .ok problem after

theorem halts_of_executes {lines : List String} {env : Environment}
    {outcome : Reference.Outcome Unit} (topLevel : TopLevel machine)
    (shallow : Shallow limit statements machine)
    (executes : Executes (.all statements) [globalsOf machine] lines env outcome) :
    Halts limit statements machine := by
  rcases runProgram_complete topLevel shallow executes with ⟨bound, ends⟩
  refine ⟨bound, fun rounds enough => ?_⟩
  rcases ends rounds with ⟨problem, after, run, _⟩ | ⟨few, _⟩
  · exact ⟨problem, after, run⟩
  · exact absurd few (Nat.not_lt.mpr enough)

/-- A program that was parsed without a report has the meaning that the rules give
it.  Its run comes to an end just if there is a derivation; a run that has come to
an end, with whatever number of rounds, tells what is derived; and a run that has
not was only out of rounds. -/
theorem runProgram_refines {levels : Nat} {body : List Token} {eof : Token}
    (inside : ∀ token ∈ body, token.kind ≠ .eof) (isEnd : eof.kind = .eof)
    (parsed : Grammar.Parsed.ofProgram levels (body ++ [eof]) = ⟨statements, []⟩)
    (topLevel : TopLevel machine) (shallow : Shallow limit statements machine) :
    (Halts limit statements machine ↔ ∃ lines env outcome,
      Executes (.all statements) [globalsOf machine] lines env outcome) ∧
    (∀ rounds problem after, runProgram limit rounds statements machine = .ok problem after →
      Halts limit statements machine ∧
      ∀ lines env outcome, Executes (.all statements) [globalsOf machine] lines env outcome →
        Tells machine problem after lines env outcome) ∧
    ∀ rounds, (∃ problem after, runProgram limit rounds statements machine = .ok problem after) ∨
      ∃ after, runProgram limit rounds statements machine = .error .unfinished after := by
  have canonical := Grammar.areCanonical_of_parsed inside isEnd parsed
  have derives : ∀ rounds problem after,
      runProgram limit rounds statements machine = .ok problem after →
      ∃ lines env outcome,
        Executes (.all statements) [globalsOf machine] lines env outcome := by
    intro rounds problem after run
    rcases runProgram_sound rounds canonical topLevel shallow with
      ⟨_, _, lines, env, outcome, _, executes, _⟩ | ⟨_, unfinished⟩
    · exact ⟨lines, env, outcome, executes⟩
    · rw [run] at unfinished
      cases unfinished
  refine ⟨⟨?_, ?_⟩, ?_, ?_⟩
  · rintro ⟨bound, ends⟩
    rcases ends bound (Nat.le_refl bound) with ⟨problem, after, run⟩
    exact derives bound problem after run
  · rintro ⟨lines, env, outcome, executes⟩
    exact halts_of_executes topLevel shallow executes
  · intro rounds problem after run
    obtain ⟨_, _, _, derived⟩ := derives rounds problem after run
    refine ⟨halts_of_executes topLevel shallow derived, fun lines env outcome executes => ?_⟩
    rcases runProgram_complete topLevel shallow executes with ⟨bound, ends⟩
    rcases ends rounds with ⟨_, _, told, tells⟩ | ⟨_, _, unfinished⟩
    · rw [run] at told
      rcases EStateM.Result.ok.inj told with ⟨rfl, rfl⟩
      exact tells
    · rw [run] at unfinished
      cases unfinished
  · intro rounds
    rcases runProgram_sound rounds canonical topLevel shallow with
      ⟨problem, after, _, _, _, run, _, _⟩ | unfinished
    · exact Or.inl ⟨problem, after, run⟩
    · exact Or.inr unfinished

end Refinement

open Grammar (Parsed blankToken letter)

/-- The body `{ var a = nil; print a; }`. -/
def blockBody : List Token :=
  [blankToken (.symbol .leftBrace), blankToken (.keyword .kwVar), letter "a",
    blankToken (.symbol .equal), blankToken (.keyword .kwNil), blankToken (.symbol .semicolon),
    blankToken (.keyword .kwPrint), letter "a", blankToken (.symbol .semicolon),
    blankToken (.symbol .rightBrace)]

/-- What the body means. -/
def blockStatements : List Node :=
  [.blockStmt [.varStmt (letter "a") (.literal .nil), .printStmt (.reference (letter "a"))]]

/-- The block prints its variable, which is gone afterwards. -/
theorem executes_blockStatements :
    Executes (.all blockStatements) [∅] ["nil"] [∅] (.ok ()) := by
  have refers : Reference.referred (letter "a") (Reference.declare "a" .nil [∅, ∅]) = .ok .nil := by
    simp [Reference.referred, Reference.declare, Reference.read?, letter]
  have evaluates : Evaluates (Reference.declare "a" .nil [∅, ∅]) (.reference (letter "a"))
      (Reference.declare "a" .nil [∅, ∅]) (.ok .nil) := by
    rw [← refers]
    exact .reference
  have body : Executes (.all [.varStmt (letter "a") (.literal .nil),
      .printStmt (.reference (letter "a"))]) [∅, ∅] ["nil"]
      (Reference.declare "a" .nil [∅, ∅]) (.ok ()) :=
    .next (.varInit .literal) (.next (.print evaluates) .done)
  exact .next (.block body) .done

/-- At the start of a session the block runs as it is derived. -/
theorem runProgram_refines_block :
    Parsed.ofProgram 100 (blockBody ++ [blankToken .eof]) = ⟨blockStatements, []⟩ ∧
      TopLevel (Machine.initial false) ∧ Shallow 100 blockStatements (Machine.initial false) ∧
      Halts 100 blockStatements (Machine.initial false) ∧
      ∀ rounds problem after,
        runProgram 100 rounds blockStatements (Machine.initial false) = .ok problem after →
        Tells (Machine.initial false) problem after ["nil"] [∅] (.ok ()) := by
  have parsed : Parsed.ofProgram 100 (blockBody ++ [blankToken .eof]) =
      ⟨blockStatements, []⟩ := rfl
  have inside : ∀ token ∈ blockBody, token.kind ≠ .eof := by decide
  have topLevel := topLevel_initial false
  have shallow : Shallow 100 blockStatements (Machine.initial false) :=
    shallow_of_depth (Grammar.areCanonical_of_parsed inside rfl parsed) topLevel (by decide)
  have executes : Executes (.all blockStatements) [globalsOf (Machine.initial false)] ["nil"] [∅]
      (.ok ()) := executes_blockStatements
  rcases runProgram_refines inside rfl parsed topLevel shallow with ⟨halts, tells, _⟩
  refine ⟨parsed, topLevel, shallow, halts.mpr ⟨_, _, _, executes⟩, ?_⟩
  intro rounds problem after run
  exact (tells rounds problem after run).2 _ _ _ executes

end TreeWalker.Evaluation
