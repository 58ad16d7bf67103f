import TreeWalker.Proofs.Evaluation.Likeness
import TreeWalker.Proofs.Grammar.Concatenation
import TreeWalker.Proofs.Grammar.Likeness
import TreeWalker.Proofs.Lexical.Joining
import TreeWalker.Proofs.Session.Running

/-!
# A session is a script

Clean sources that are run one after the other on one machine, up to the first
that meets a problem, have the same end as the one script in which they stand
under each other.  The tokens and statements of the script are those of the
sources further down, and its run goes through the same machines.

At a prompt the same happens, but that the value of a single expression is shown
once it is known.
-/

namespace TreeWalker

open Evaluation Grammar

/-! ## Sources under each other -/

/-- The sources with line feeds between them. -/
def joined (sources : List (List Char)) : List Char :=
  List.intercalate ['\n'] sources

theorem joined_cons_cons (source next : List Char) (sources : List (List Char)) :
    joined (source :: next :: sources) = source ++ '\n' :: joined (next :: sources) := by
  rw [joined, joined, List.intercalate_cons_cons, List.append_assoc, List.singleton_append]

/-- The second line is so many lines further down than the first. -/
def Below (lines : Nat) (line line' : Int) : Prop :=
  line' = line + lines

theorem Token.allAlike_movedBy (lines : Nat) (tokens : List Token) :
    Token.AllAlike (Below lines) tokens (tokens.map (Token.movedBy lines)) := by
  rw [Token.AllAlike, List.forall₂_map_right_iff, List.forall₂_same]
  exact fun token _ => ⟨rfl, rfl, rfl, rfl⟩

namespace Reading

variable {limit : Nat} {text more : List Char}

/-- What is read of a clean text is read of it further down as well. -/
theorem exists_parsed_movedBy (lines : Nat) (clean : (ofSource limit more).diagnostics = []) :
    ∃ others, Node.AllAlike (Below lines) (ofSource limit more).statements others ∧
      Parsed.ofProgram limit ((Lexical.bodyOf more).map (Token.movedBy lines) ++
        [Lexical.endToken (lines + Lexical.lastLine more)]) = ⟨others, []⟩ := by
  have alike := Parsed.ofProgram_alike limit (Token.allAlike_movedBy lines
    (Lexical.bodyOf more ++ [Lexical.endToken (Lexical.lastLine more)]))
  have same : Token.movedBy lines (Lexical.endToken (Lexical.lastLine more)) =
      Lexical.endToken (lines + Lexical.lastLine more) := by
    simp [Token.movedBy, Lexical.endToken, Int.add_comm]
  rw [parsed_of_clean clean, List.map_append, List.map_singleton, same] at alike
  refine ⟨_, alike.1, ?_⟩
  have noReport := List.forall₂_nil_left_iff.mp alike.2
  rw [← noReport]

/-- Two clean texts under each other are clean, and their statements are those of
the first and, further down, those of the second. -/
theorem join (clean : (ofSource limit text).diagnostics = [])
    (cleanMore : (ofSource limit more).diagnostics = []) :
    (ofSource limit (text ++ '\n' :: more)).diagnostics = [] ∧
      ∃ others,
        Node.AllAlike (Below (Lexical.lastLine text)) (ofSource limit more).statements others ∧
          (ofSource limit (text ++ '\n' :: more)).statements =
            (ofSource limit text).statements ++ others := by
  obtain ⟨scanned, _⟩ := List.append_eq_nil_iff.mp clean
  obtain ⟨scannedMore, _⟩ := List.append_eq_nil_iff.mp cleanMore
  have closed := Lexical.isClosed_of_diagnostics scanned
  rcases exists_parsed_movedBy (Lexical.lastLine text) cleanMore with ⟨others, alike, parsedMore⟩
  have insideMore : ∀ token ∈ (Lexical.bodyOf more).map (Token.movedBy (Lexical.lastLine text)),
      token.kind ≠ .eof := by
    intro token member
    rcases List.mem_map.mp member with ⟨token, isToken, rfl⟩
    exact Lexical.kind_ne_eof_of_mem_bodyOf token isToken
  have parsed := parsed_append Lexical.kind_ne_eof_of_mem_bodyOf insideMore rfl rfl
    (parsed_of_clean clean) parsedMore
  rw [← Lexical.bodyOf_join closed, ← Lexical.lastLine_join] at parsed
  rw [← Lexical.tokens_ofText] at parsed
  have whole := (parsed_ofSource (text ++ '\n' :: more)).trans parsed
  refine ⟨?_, others, alike, ?_⟩
  · have scannedBoth : (ofSource limit (text ++ '\n' :: more)).scan.diagnostics = [] := by
      change (Lexical.Scan.ofText _).diagnostics = []
      change (Lexical.Scan.ofText _).diagnostics = [] at scanned scannedMore
      rw [Lexical.diagnostics_join closed, scanned, scannedMore]
      rfl
    rw [diagnostics, scannedBoth, whole]
    rfl
  · rw [statements, whole]

end Reading

/-! ## Programs on machines with different traces -/

namespace Evaluation

variable {statements : List Node} {machine machine' : Machine}

theorem SameEnd.of_untracedEnd {result result' : EStateM.Result Abort Machine (Option Diagnostic)}
    (finishes : (∃ problem after, result = .ok problem after) ∨
      ∃ after, result = .error .unfinished after)
    (same : untracedEnd result = untracedEnd result') : SameEnd Eq result result' := by
  rcases finishes with ⟨problem, after, rfl⟩ | ⟨after, rfl⟩
  · cases result' with
    | ok problem' after' =>
        rcases EStateM.Result.ok.inj same with ⟨rfl, machines⟩
        exact .ended (.refl problem) machines
    | error abort after' => cases same
  · cases result' with
    | ok problem' after' => cases same
    | error abort after' =>
        rcases EStateM.Result.error.inj same with ⟨rfl, machines⟩
        exact .unfinished machines

/-- A clean program does not depend on the trace that is there. -/
theorem runProgram_untraced (limit rounds : Nat) (canonical : Node.AreCanonical statements)
    (topLevel : TopLevel machine) (same : machine.untraced = machine'.untraced) :
    SameEnd Eq (runProgram limit rounds statements machine)
      (runProgram limit rounds statements machine') :=
  .of_untracedEnd (runProgram_cases limit rounds canonical topLevel)
    ((Traceless.runProgram limit rounds statements).untracedEnd_eq topLevel.standing
      (topLevel.of_untraced same).standing same)

/-- Told further down, a problem that was expected there is the same. -/
theorem SameProblem.of_below {lines : Nat} {problem problem' : Option Diagnostic}
    (problems : SameProblem (Below lines) problem problem') :
    SameProblem Eq (problem.map (Diagnostic.movedBy lines)) problem' := by
  cases problems with
  | none => exact .none
  | some alike =>
      exact .some ⟨alike.stage, alike.line.imp_right Eq.symm, alike.place, alike.message⟩

theorem SameProblem.movedBy (lines : Nat) {problem problem' : Option Diagnostic}
    (problems : SameProblem Eq problem problem') :
    SameProblem Eq (problem.map (Diagnostic.movedBy lines))
      (problem'.map (Diagnostic.movedBy lines)) := by
  cases problems with
  | none => exact .none
  | some alike =>
      exact .some ⟨alike.stage, alike.line.imp_right (congrArg (· + (lines : Int))), alike.place,
        alike.message⟩

/-- What is told in the end may be changed. -/
theorem SameEnd.map {near far : Int → Int → Prop}
    {change change' : Option Diagnostic → Option Diagnostic} {run run' : Run (Option Diagnostic)}
    (changes : ∀ {problem problem'}, SameProblem near problem problem' →
      SameProblem far (change problem) (change' problem'))
    (ends : SameEnd near (run machine) (run' machine')) :
    SameEnd far ((run >>= fun problem => pure (change problem)) machine)
      ((run' >>= fun problem => pure (change' problem)) machine') := by
  rw [bind_apply, bind_apply]
  generalize run machine = result, run' machine' = result' at ends
  cases ends with
  | ended problems machines => exact .ended (changes problems) machines
  | unfinished machines => exact .unfinished machines

end Evaluation

/-! ## Sessions -/

namespace Session

/-- The problem that a source meets when it is run. -/
def told (run : Run Outcome) : Run (Option Diagnostic) := do
  return (← run).runtimeDiagnostic

/-- Sources are run one after the other, up to the first one that meets a problem
when it is run.  The line of the problem is counted through all sources. -/
def inTurn (run : List Char → Run Outcome) : List (List Char) → Run (Option Diagnostic)
  | [] => return none
  | source :: sources =>
    followedBy (told (run source)) do
      let problem ← inTurn run sources
      return problem.map (Diagnostic.movedBy (Lexical.lastLine source))

variable {limits : Limits} {rounds : Nat} {treatment : Treatment} {source : List Char}
variable {machine machine' : Machine}

/-- A clean source meets the problem that its statements meet. -/
theorem told_of_clean (executes : treatment.execute = true)
    (clean : (Reading.ofSource limits.parsing source).diagnostics = []) :
    told (run limits rounds treatment source) machine =
      runProgram limits.running rounds
        (prepared treatment (Reading.ofSource limits.parsing source).statements)
        (machine.note (Reading.ofSource limits.parsing source).trace) := by
  rw [told, bind_apply, run_of_clean rounds machine executes clean, bind_apply]
  cases runProgram limits.running rounds _ _ <;> rfl

theorem told_script (clean : (Reading.ofSource limits.parsing source).diagnostics = []) :
    told (run limits rounds .script source) machine =
      runProgram limits.running rounds (Reading.ofSource limits.parsing source).statements
        (machine.note (Reading.ofSource limits.parsing source).trace) :=
  told_of_clean rfl clean

theorem inTurn_singleton (run : List Char → Run Outcome) (source : List Char) :
    inTurn run [source] = told (run source) :=
  followedBy_none _

/-! ### Scripts -/

theorem clean_joined {sources : List (List Char)}
    (clean : ∀ source ∈ sources, (Reading.ofSource limits.parsing source).diagnostics = []) :
    (Reading.ofSource limits.parsing (joined sources)).diagnostics = [] := by
  induction sources with
  | nil => rfl
  | cons source sources inductionHypothesis =>
      have cleanRest := inductionHypothesis fun _ member => clean _ (List.mem_cons_of_mem _ member)
      have cleanFirst := clean source List.mem_cons_self
      cases sources with
      | nil =>
          rw [joined, List.intercalate_singleton]
          exact cleanFirst
      | cons next sources =>
          rw [joined_cons_cons]
          exact (Reading.join cleanFirst cleanRest).1

/-- A source in front of others is run as the first part of one script. -/
theorem sameEnd_cons {more : List Char} {sources : List (List Char)}
    (clean : (Reading.ofSource limits.parsing source).diagnostics = [])
    (cleanMore : (Reading.ofSource limits.parsing more).diagnostics = [])
    (topLevel : TopLevel machine)
    (others : ∀ after, TopLevel after →
      SameEnd Eq (inTurn (run limits rounds .script) sources after)
        (told (run limits rounds .script more) after)) :
    SameEnd Eq (inTurn (run limits rounds .script) (source :: sources) machine)
      (told (run limits rounds .script (source ++ '\n' :: more)) machine) := by
  obtain ⟨cleanBoth, statements, alike, split⟩ := Reading.join clean cleanMore
  have canonical := Reading.areCanonical clean
  have canonicalMore := Reading.areCanonical cleanMore
  have start := topLevel.note (Reading.ofSource limits.parsing source).trace
  -- The machines start with different traces, since other readings were noted.
  have starts : (machine.note (Reading.ofSource limits.parsing source).trace).untraced =
      (machine.note (Reading.ofSource limits.parsing (source ++ '\n' :: more)).trace).untraced := by
    simp
  have ends := runProgram_untraced limits.running rounds canonical start starts
  rw [told_script cleanBoth, split, runProgram_append]
  rw [← told_script clean] at ends
  refine ends.followedBy fun after after' run machines => ?_
  rw [told_script clean] at run
  have middle := topLevel_of_runProgram canonical start run
  have onward := others after middle
  rw [told_script cleanMore] at onward
  have goesOn : (after.note (Reading.ofSource limits.parsing more).trace).untraced =
      after'.untraced := by
    rw [Machine.untraced_note, machines]
  have same := runProgram_untraced limits.running rounds canonicalMore (middle.note _) goesOn
  have further :=
    runProgram_alike limits.running rounds canonicalMore (middle.of_untraced machines) alike
  have told : SameEnd Eq _ ((runProgram limits.running rounds statements >>= pure) after') :=
    ((onward.trans same).trans further).map SameProblem.of_below
  rwa [bind_pure] at told

theorem sameEnd_joined {sources : List (List Char)}
    (clean : ∀ source ∈ sources, (Reading.ofSource limits.parsing source).diagnostics = [])
    (topLevel : TopLevel machine) :
    SameEnd Eq (inTurn (run limits rounds .script) sources machine)
      (told (run limits rounds .script (joined sources)) machine) := by
  induction sources generalizing machine with
  | nil =>
      rw [told_script (clean_joined clean)]
      exact .ended .none (Machine.untraced_note _ _).symm
  | cons source sources inductionHypothesis =>
      have cleanFirst := clean source List.mem_cons_self
      have cleanRest : ∀ source ∈ sources,
          (Reading.ofSource limits.parsing source).diagnostics = [] :=
        fun _ member => clean _ (List.mem_cons_of_mem _ member)
      cases sources with
      | nil =>
          rw [joined, List.intercalate_singleton, inTurn_singleton, told_script cleanFirst]
          exact runProgram_untraced limits.running rounds (Reading.areCanonical cleanFirst)
            (topLevel.note _) rfl
      | cons next sources =>
          rw [joined_cons_cons]
          exact sameEnd_cons cleanFirst (clean_joined cleanRest) topLevel
            fun after => inductionHypothesis cleanRest

/-! ### Prompts -/

/-- Show the value that a single expression has on a machine, if it has one. -/
def echo (limit : Nat) (machine : Machine) : List Node → Run Unit
  | [.exprStmt expr] =>
    match evaluate (limit - 1) expr machine with
    | .ok value _ => printLine value.display
    | .error _ _ => return ()
  | _ => return ()

/-- Run a source as a script and then, if it has met no problem, show its value in
case that it is a single expression. -/
def echoing (limits : Limits) (rounds : Nat) (source : List Char) : Run Outcome := do
  let machine ← get
  let outcome ← run limits rounds .script source
  if outcome.runtimeDiagnostic.isNone then
    echo limits.running machine outcome.statements
  return outcome

theorem prepared_prompt_cases (limit : Nat) (statements : List Node) :
    (∃ expr, statements = [.exprStmt expr] ∧
        prepared .prompt statements = [.printStmt expr]) ∨
      prepared .prompt statements = statements ∧
        ∀ machine, echo limit machine statements = pure () := by
  rcases statements with _ | ⟨node, _ | ⟨next, others⟩⟩
  · exact Or.inr ⟨rfl, fun _ => rfl⟩
  · cases node with
    | exprStmt expr => exact Or.inl ⟨expr, rfl, rfl⟩
    | _ => exact Or.inr ⟨rfl, fun _ => rfl⟩
  · cases node <;> exact Or.inr ⟨rfl, fun _ => rfl⟩

theorem told_echoing (clean : (Reading.ofSource limits.parsing source).diagnostics = []) :
    told (echoing limits rounds source) machine =
      followedBy
        (runProgram limits.running rounds (Reading.ofSource limits.parsing source).statements)
        (do
          echo limits.running machine (Reading.ofSource limits.parsing source).statements
          return none)
        (machine.note (Reading.ofSource limits.parsing source).trace) := by
  have script : run limits rounds .script source machine =
      (runProgram limits.running rounds (Reading.ofSource limits.parsing source).statements >>=
        fun problem =>
          pure ⟨(Reading.ofSource limits.parsing source).statements, [], [], problem⟩)
        (machine.note (Reading.ofSource limits.parsing source).trace) :=
    run_of_clean rounds machine rfl clean
  rw [told, bind_apply, echoing, get_bind_apply, followedBy_apply]
  cases ends : runProgram limits.running rounds
      (Reading.ofSource limits.parsing source).statements _ with
  | error abort after => rw [bind_apply_error (script.trans (bind_apply_error ends))]
  | ok problem after =>
      rw [bind_apply_ok (script.trans (bind_apply_ok ends))]
      cases problem with
      | some problem => rfl
      | none =>
          simp only [Option.isNone_none, if_true, bind_apply]
          cases echo limits.running machine
            (Reading.ofSource limits.parsing source).statements after <;> rfl

theorem runProgram_exprStmt (limit rounds : Nat) (expr : Node) (machine : Machine) :
    runProgram (limit + 1) rounds [.exprStmt expr] machine =
      match evaluate limit expr (machine.note ["Executing: Expression"]) with
      | .ok _ after => .ok none after
      | .error abort after => diagnose (.exprStmt expr) abort after := by
  have performs : perform rounds (limit + 1) (.exprStmt expr) machine =
      (evaluate limit expr >>= fun _ => pure ()) (machine.note ["Executing: Expression"]) := rfl
  rw [runProgram_cons, performs, bind_apply]
  cases evaluate limit expr _ <;> rfl

theorem runProgram_printStmt (limit rounds : Nat) (expr : Node) (machine : Machine) :
    runProgram (limit + 1) rounds [.printStmt expr] machine =
      match evaluate limit expr (machine.note ["Executing: Print"]) with
      | .ok value after => .ok none (after.print value.display)
      | .error abort after => diagnose (.printStmt expr) abort after := by
  have performs : perform rounds (limit + 1) (.printStmt expr) machine =
      (evaluate limit expr >>= fun value => printLine value.display)
        (machine.note ["Executing: Print"]) := rfl
  rw [runProgram_cons, performs, bind_apply]
  cases evaluate limit expr _ <;> rfl

/-- A single expression is shown as it is printed. -/
theorem sameEnd_sole {expr : Node} (limit rounds : Nat)
    (canonical : Node.AreCanonical [.exprStmt expr]) (topLevel : TopLevel machine)
    (same : machine.untraced = machine'.untraced) {trace : List String} :
    SameEnd Eq (runProgram limit rounds [.printStmt expr] (machine.note trace))
      (followedBy (runProgram limit rounds [.exprStmt expr])
        (do echo limit machine' [.exprStmt expr]; return none) (machine'.note trace)) := by
  have topLevel' := topLevel.of_untraced same
  have finishes := runProgram_cases limit rounds canonical (topLevel'.note trace)
  cases limit with
  | zero =>
      -- Without levels neither statement is started.
      refine .ended (.some ⟨rfl, .inl rfl, rfl, rfl⟩) ?_
      simp only [Machine.untraced_note, same]
  | succ limit =>
  -- The expression runs on three machines that differ in their traces only.
  have traceless := Traceless.evaluate limit expr
  have printing := (topLevel.note trace).note ["Executing: Print"]
  have dropping := (topLevel'.note trace).note ["Executing: Expression"]
  have sameRun := traceless.untracedEnd_eq printing.standing dropping.standing (by simp [same])
  have sameShown := traceless.untracedEnd_eq printing.standing topLevel'.standing (by simp [same])
  rw [runProgram_printStmt, followedBy_apply, echo, Nat.add_sub_cancel]
  rw [runProgram_exprStmt] at finishes ⊢
  generalize evaluate limit expr ((machine.note trace).note _) = printed
    at sameRun sameShown ⊢
  generalize evaluate limit expr ((machine'.note trace).note _) = dropped
    at sameRun finishes ⊢
  generalize evaluate limit expr machine' = shown at sameShown ⊢
  cases printed with
  | ok value after =>
      cases dropped with
      | error => cases sameRun
      | ok _ dropped =>
          cases shown with
          | error => cases sameShown
          | ok =>
              obtain ⟨rfl, machines⟩ := EStateM.Result.ok.inj sameRun
              obtain ⟨rfl, _⟩ := EStateM.Result.ok.inj sameShown
              exact .ended .none (congrArg (·.print value.display) machines)
  | error abort after =>
      cases dropped with
      | ok => cases sameRun
      | error _ dropped =>
          obtain ⟨rfl, machines⟩ := EStateM.Result.error.inj sameRun
          cases abort with
          | fault line fault =>
              refine .ended (.refl _) ?_
              rw [Machine.untraced_note, Machine.untraced_note, machines]
          | overNested =>
              refine .ended (.some ⟨rfl, .inl rfl, rfl, rfl⟩) ?_
              rw [Machine.untraced_note, Machine.untraced_note, machines]
          | unfinished => exact .unfinished machines
          | misplaced | scope => rcases finishes with ⟨_, _, told⟩ | ⟨_, told⟩ <;> cases told

/-- At a prompt a source is run as a script, and shown. -/
theorem sameEnd_prompt (rounds : Nat)
    (clean : (Reading.ofSource limits.parsing source).diagnostics = [])
    (topLevel : TopLevel machine) (same : machine.untraced = machine'.untraced) :
    SameEnd Eq (told (run limits rounds .prompt source) machine)
      (told (echoing limits rounds source) machine') := by
  have canonical := Reading.areCanonical clean
  rw [told_of_clean rfl clean, told_echoing clean]
  rcases prepared_prompt_cases limits.running
      (Reading.ofSource limits.parsing source).statements with
    ⟨expr, sole, prints⟩ | ⟨asIs, silent⟩
  · rw [sole] at canonical
    rw [prints, sole]
    exact sameEnd_sole limits.running rounds canonical topLevel same
  · have starts : (machine.note (Reading.ofSource limits.parsing source).trace).untraced =
        (machine'.note (Reading.ofSource limits.parsing source).trace).untraced := by simp [same]
    have quiet : (do
        echo limits.running machine' (Reading.ofSource limits.parsing source).statements
        return none) = (pure none : Run (Option Diagnostic)) := by
      rw [silent]
      rfl
    rw [asIs, quiet, followedBy_none]
    exact runProgram_untraced limits.running rounds canonical (topLevel.note _) starts

theorem restores_told {run : Run Outcome} (restores : Restores run) : Restores (told run) :=
  restores.bind fun _ => Restores.pure _

/-- Sources that are each run to the same end, one way or the other, are run in turn
to the same end. -/
theorem inTurn_congr {first second : List Char → Run Outcome} {sources : List (List Char)}
    (restores : ∀ source, Restores (first source))
    (same : ∀ source ∈ sources, ∀ machine machine', TopLevel machine →
      machine.untraced = machine'.untraced →
      SameEnd Eq (told (first source) machine) (told (second source) machine'))
    (topLevel : TopLevel machine) (machines : machine.untraced = machine'.untraced) :
    SameEnd Eq (inTurn first sources machine) (inTurn second sources machine') := by
  induction sources generalizing machine machine' with
  | nil => exact .ended .none machines
  | cons source sources inductionHypothesis =>
      have kept := restores_told (restores source) machine topLevel.standing
      have ends := same source List.mem_cons_self machine machine' topLevel machines
      refine ends.followedBy fun after after' run machines => ?_
      rw [run] at kept
      cases kept with
      | value restored =>
          have others := inductionHypothesis
            (fun _ member => same _ (List.mem_cons_of_mem _ member))
            (topLevel.of_restored restored) machines
          exact others.map (SameProblem.movedBy _)

/-- Clean sources that are run in turn end as the one script that they make up when
they stand under each other.  At a prompt they end in the same way, but that single
expressions are shown. -/
theorem inTurn_joined (limits : Limits) (rounds : Nat) {sources : List (List Char)}
    (clean : ∀ source ∈ sources, (Reading.ofSource limits.parsing source).diagnostics = [])
    (topLevel : TopLevel machine) :
    (Reading.ofSource limits.parsing (joined sources)).diagnostics = [] ∧
      SameEnd Eq (inTurn (run limits rounds .script) sources machine)
        (told (run limits rounds .script (joined sources)) machine) ∧
      SameEnd Eq (inTurn (run limits rounds .prompt) sources machine)
        (inTurn (echoing limits rounds) sources machine) := by
  refine ⟨clean_joined clean, sameEnd_joined clean topLevel, ?_⟩
  exact inTurn_congr (Restores.session limits rounds .prompt)
    (fun source member _ _ => sameEnd_prompt rounds (clean source member)) topLevel rfl

/-- A conditional without an else in front of a comment, a single expression, and a
variable that is not declared. -/
def sampleSources : List (List Char) :=
  ["var a = nil; if (a) print a; // no".toList, "a;".toList, "\nb;".toList]

/-- The sample shows its expression at a prompt only, and either way it is stopped on
the line that is the fourth of the script. -/
theorem inTurn_joined_sample :
    (∀ source ∈ sampleSources, (Reading.ofSource 100 source).diagnostics = []) ∧
      TopLevel (Machine.initial false) ∧
      SameEnd Eq (inTurn (run (.uniform 100) 0 .script) sampleSources (Machine.initial false))
        (told (run (.uniform 100) 0 .script (joined sampleSources)) (Machine.initial false)) ∧
      (told (run (.uniform 100) 0 .script (joined sampleSources))).run' (Machine.initial false) =
        some (some ⟨.runtime, 4, "", "Undefined variable 'b'."⟩) ∧
      (leftBy (inTurn (run (.uniform 100) 0 .script) sampleSources)
        (Machine.initial false)).output = #[] ∧
      (leftBy (inTurn (run (.uniform 100) 0 .prompt) sampleSources)
        (Machine.initial false)).output = #["nil"] := by
  have clean : ∀ source ∈ sampleSources, (Reading.ofSource 100 source).diagnostics = [] := by
    decide +kernel
  have topLevel := topLevel_initial false
  refine ⟨clean, topLevel, (inTurn_joined (.uniform 100) 0 clean topLevel).2.1, ?_, ?_, ?_⟩
  all_goals decide +kernel

end Session

end TreeWalker
