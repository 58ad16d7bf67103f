import TreeWalker.Proofs.Grammar.Standing
import TreeWalker.Proofs.Lexical.Places
import TreeWalker.Proofs.Session.Layout

/-!
# Diagnostics point at lines of their source

The scanner names the line on which a part of the source ends.  Tokens keep it, and
the parser tells its problems of tokens.  The trees hold tokens too, and a run tells
its problem of a token of the statement, whatever the session has been through.  So
where a diagnostic is reported, there is a line of the source to show.
-/

namespace TreeWalker

open Evaluation Grammar Lexical

/-! ## Problems of a run -/

namespace Evaluation

variable {good : Int → Prop}

/-- Where the tokens of the statements are on good lines, the problem that stops the run
is told of a good line.  Nesting in a tree without tokens is told of the first line. -/
theorem line_of_runProgram {limit rounds : Nat} {statements : List Node} {machine after : Machine}
    {problem : Diagnostic} (alike : Node.AllAlike (fun line _ => good line) statements statements)
    (stops : runProgram limit rounds statements machine = .ok (some problem) after) :
    good problem.line ∨ problem.line = 1 := by
  induction statements generalizing machine with
  | nil => cases stops
  | cons statement statements inductionHypothesis =>
      obtain ⟨first, others⟩ := List.forall₂_cons.mp alike
      rw [runProgram_cons] at stops
      -- The statement is like itself, so an abort is like itself: its line is good.
      have ends := Mirrors.perform rounds limit first machine
      generalize perform rounds limit statement machine = result at ends stops
      cases ends with
      | value => exact inductionHypothesis others stops
      | abort aborts =>
          cases aborts with
          | fault isGood =>
              cases stops
              exact Or.inl isGood
          | overNested =>
              cases stops
              exact (Node.leadingLine_alike first 1).imp_right And.left
          | misplaced | scope | unfinished => cases stops

end Evaluation

/-! ## Outcomes -/

namespace Session

variable {limits : Limits} {rounds : Nat} {treatment : Treatment} {source : List Char}
  {machine after : Machine} {outcome : Outcome}

/-- Each diagnostic of an outcome points at a line of the source. -/
structure Pointed (source : List Char) (outcome : Outcome) : Prop where
  /-- The line is one of the source, and found there. -/
  lines : ∀ diagnostic ∈ outcome.diagnostics,
    1 ≤ diagnostic.line ∧ diagnostic.line ≤ 1 + lineFeeds source ∧
      ∃ line, Text.line? source diagnostic.line = some line
  /-- Each character that begins nothing is seen on the line that is told of it. -/
  unexpected : List.Forall₂ (fun diagnostic segment => ∃ c line, segment.text = [c] ∧
      Text.line? source diagnostic.line = some line ∧ c ∈ line)
    (outcome.scanDiagnostics.filter (·.message = unexpectedMessage))
    ((cut source).filter (·.shape = .unexpected))
  /-- A problem of the grammar is told of a token, and what the lexeme has after its last
  line feed is seen on the line. -/
  tokens : ∀ diagnostic ∈ outcome.parseDiagnostics, ∃ token ∈ (Scan.ofText source).tokens,
    diagnostic.line = token.line ∧ diagnostic.place = SyntaxError.place token ∧
      ∃ line, Text.line? source diagnostic.line = some line ∧
        Text.afterLastFeed token.lexeme.toList <:+: line
  /-- The problem of a run is told of a token of this source, or of its first line. -/
  runtime : ∀ diagnostic ∈ outcome.runtimeDiagnostic,
    (∃ token ∈ (Scan.ofText source).tokens, token.line = diagnostic.line) ∨ diagnostic.line = 1

/-- What is returned of a source, and how its statements have run if they did. -/
theorem outcome_of_run (returns : run limits rounds treatment source machine = .ok outcome after) :
    outcome.scanDiagnostics = (Reading.ofSource limits.parsing source).scan.diagnostics ∧
      outcome.parseDiagnostics = (Reading.ofSource limits.parsing source).parsed.diagnostics ∧
      (outcome.runtimeDiagnostic = none ∨
        runProgram limits.running rounds
          (prepared treatment (Reading.ofSource limits.parsing source).statements)
          (machine.note (Reading.ofSource limits.parsing source).trace) =
            .ok outcome.runtimeDiagnostic after) := by
  by_cases clean : (Reading.ofSource limits.parsing source).diagnostics = []
  · cases executes : treatment.execute with
    | true =>
        rw [run_of_clean rounds machine executes clean] at returns
        obtain ⟨problem, middle, runs, rest⟩ := bind_eq_ok_iff.mp returns
        cases rest
        obtain ⟨scanned, parsed⟩ := List.append_eq_nil_iff.mp clean
        exact ⟨scanned.symm, parsed.symm, Or.inr runs⟩
    | false =>
        simp only [run, runBy, executes, Bool.and_false, Bool.false_eq_true, if_false] at returns
        cases returns
        exact ⟨rfl, rfl, Or.inl rfl⟩
  · rw [run_of_problem rounds machine treatment clean] at returns
    cases returns
    exact ⟨rfl, rfl, Or.inl rfl⟩

/-- The statements that are run hold tokens of the source. -/
theorem allAlike_prepared (limits : Limits) (treatment : Treatment) (source : List Char) :
    Node.AllAlike (fun line _ => ∃ token ∈ (Scan.ofText source).tokens, token.line = line)
      (prepared treatment (Reading.ofSource limits.parsing source).statements)
      (prepared treatment (Reading.ofSource limits.parsing source).statements) :=
  prepared_alike treatment (Parsed.ofProgram_alike limits.parsing
    (List.forall₂_same.mpr fun token member => ⟨rfl, rfl, rfl, token, member, rfl⟩)).1

theorem line_of_runtimeDiagnostic
    (returns : run limits rounds treatment source machine = .ok outcome after) :
    ∀ diagnostic ∈ outcome.runtimeDiagnostic,
      (∃ token ∈ (Scan.ofText source).tokens, token.line = diagnostic.line) ∨
        diagnostic.line = 1 := by
  intro diagnostic told
  rcases (outcome_of_run returns).2.2 with none | runs
  · rw [none] at told
    cases told
  · rw [told] at runs
    exact line_of_runProgram (allAlike_prepared limits treatment source) runs

/-- Whatever is told of a source is told of a part of it. -/
theorem exists_endsOn_of_mem
    (returns : run limits rounds treatment source machine = .ok outcome after) :
    ∀ diagnostic ∈ outcome.diagnostics, ∃ part, EndsOn source part diagnostic.line := by
  obtain ⟨scanned, parsed, _⟩ := outcome_of_run returns
  intro diagnostic member
  rw [Outcome.diagnostics, List.mem_append, List.mem_append, scanned, parsed,
    Option.mem_toList] at member
  rcases member with (scan | parse) | told
  · exact exists_endsOn_of_mem_diagnostics scan
  · obtain ⟨token, among, line, _⟩ := exists_token_of_mem_diagnostics parse
    exact ⟨_, line ▸ endsOn_of_mem_tokens among⟩
  · rcases line_of_runtimeDiagnostic returns diagnostic told with ⟨token, among, line⟩ | first
    · exact ⟨_, line ▸ endsOn_of_mem_tokens among⟩
    · exact ⟨[], [], source, rfl, first⟩

theorem pointed_of_run
    (returns : run limits rounds treatment source machine = .ok outcome after) :
    Pointed source outcome := by
  obtain ⟨scanned, parsed, _⟩ := outcome_of_run returns
  refine ⟨fun diagnostic member => ?_, ?_, fun diagnostic member => ?_,
    line_of_runtimeDiagnostic returns⟩
  · obtain ⟨part, endsOn⟩ := exists_endsOn_of_mem returns diagnostic member
    obtain ⟨line, found, _⟩ := endsOn.shows
    exact ⟨endsOn.bounds.1, endsOn.bounds.2, line, found⟩
  · rw [scanned]
    refine (unexpected_endsOn source).imp fun diagnostic segment ⟨c, single, noFeed, endsOn⟩ => ?_
    obtain ⟨line, found, shown⟩ := endsOn.shows
    rw [← List.nil_append [c], Text.afterLastFeed_concat noFeed] at shown
    exact ⟨c, line, single, found, shown.subset (by simp)⟩
  · rw [parsed] at member
    obtain ⟨token, among, line, place⟩ := exists_token_of_mem_diagnostics member
    refine ⟨token, among, line, place, ?_⟩
    rw [line]
    exact (endsOn_of_mem_tokens among).shows

/-- A source comes to an outcome whose diagnostics all point at lines of it, or a loop in
it is out of rounds.  What the session has been through before does not matter. -/
theorem diagnostics_pointed (limits : Limits) (rounds : Nat) (treatment : Treatment)
    (source : List Char) (topLevel : TopLevel machine) :
    (∃ outcome after, run limits rounds treatment source machine = .ok outcome after ∧
        Pointed source outcome) ∨
      ∃ after, run limits rounds treatment source machine = .error .unfinished after := by
  by_cases clean : (Reading.ofSource limits.parsing source).diagnostics = []
  · exact (run_cases rounds treatment clean topLevel).imp_left fun ⟨outcome, after, returns⟩ =>
      ⟨outcome, after, returns, pointed_of_run returns⟩
  · have returns := run_of_problem rounds machine treatment clean
    exact Or.inl ⟨_, _, returns, pointed_of_run returns⟩

/-- On the second line is a character that begins nothing, and in front of a string over
two lines a semicolon is missing. -/
def sampleStray : List Char :=
  "print 1;\n# 2 \"over\nlines\";".toList

/-- The string is told of on the line on which it ends. -/
theorem diagnostics_pointed_stray :
    TopLevel (Machine.initial false) ∧
      ((∃ outcome after,
          run (.uniform 100) 0 .script sampleStray (.initial false) = .ok outcome after ∧
            Pointed sampleStray outcome) ∨
        ∃ after,
          run (.uniform 100) 0 .script sampleStray (.initial false) = .error .unfinished after) ∧
      ((run (.uniform 100) 0 .script sampleStray).run' (Machine.initial false)).map
        Outcome.diagnostics =
        some [⟨.scan, 2, "", "Unexpected character."⟩,
          ⟨.parse, 3, " at '\"over\nlines\"'", "Expect ';' after expression."⟩] ∧
      Text.line? sampleStray 3 = some "lines\";".toList :=
  ⟨topLevel_initial false,
    diagnostics_pointed (.uniform 100) 0 .script sampleStray (topLevel_initial false),
    by decide +kernel, by decide +kernel⟩

end Session

end TreeWalker
