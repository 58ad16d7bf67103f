import TreeWalker.Proofs.Session.Concatenation
import TreeWalker.Proofs.Session.Safety

/-!
# Layout does not matter

Two sources with the same tokens, on whatever lines, are read in the same way.
Their statements and reports differ in lines only, and where one names the line of
a token, the other names the line of the token at the same place.  On one machine
they then run to the same end.
-/

namespace TreeWalker

open Evaluation Grammar

/-! ## Tokens at one place -/

/-- The lines of the tokens that stand at one place in two token lists. -/
def AtOnePlace (tokens tokens' : List Token) (line line' : Int) : Prop :=
  ∃ place : Nat, tokens[place]?.map Token.line = some line ∧
    tokens'[place]?.map Token.line = some line'

/-- Tokens with the same content, one after the other, are alike. -/
theorem Token.allAlike_of_content {tokens tokens' : List Token}
    (same : tokens.map content = tokens'.map content) :
    AllAlike (AtOnePlace tokens tokens') tokens tokens' := by
  have length : tokens.length = tokens'.length := by
    simpa using congrArg List.length same
  refine List.forall₂_iff_get.mpr ⟨length, fun place inside inside' => ?_⟩
  have contents : (tokens[place]).content = (tokens'[place]).content := by
    rw [← List.getElem_map content (h := by simpa), ← List.getElem_map content (h := by simpa)]
    simp only [same]
  obtain ⟨kinds, rest⟩ := Prod.mk.inj contents
  obtain ⟨lexemes, literals⟩ := Prod.mk.inj rest
  refine ⟨kinds, lexemes, literals, place, ?_, ?_⟩
  · rw [List.getElem?_eq_getElem inside]
    rfl
  · rw [List.getElem?_eq_getElem inside']
    rfl

namespace Session

variable {limits : Limits} {rounds : Nat} {treatment : Treatment} {source source' : List Char}
variable {machine : Machine}

/-! ## Running -/

/-- A source that is not run meets no problem, and only the trace can change. -/
theorem told_of_idle
    (idle : ((Reading.ofSource limits.parsing source).isClean && treatment.execute) = false) :
    told (run limits rounds treatment source) machine =
      .ok none (machine.note (Reading.ofSource limits.parsing source).trace) := by
  simp only [told, run, runBy, idle, Bool.false_eq_true, if_false]
  rfl

theorem prepared_alike {lines : Int → Int → Prop} (treatment : Treatment)
    {statements statements' : List Node} (alike : Node.AllAlike lines statements statements') :
    Node.AllAlike lines (prepared treatment statements) (prepared treatment statements') := by
  unfold prepared
  cases treatment.atPrompt with
  | false => exact alike
  | true =>
      cases alike with
      | nil => exact .nil
      | cons first others =>
          cases first with
          | exprStmt exprs =>
              cases others with
              | nil => exact .cons (.printStmt exprs) .nil
              | cons next others => exact .cons (.exprStmt exprs) (.cons next others)
          | _ =>
              refine .cons ?_ others
              constructor <;> assumption

/-- Of two scanned sources with reports that are alike, both are clean or none is. -/
theorem isClean_eq_of_reports {lines : Int → Int → Prop}
    (scanned : (Reading.ofSource limits.parsing source).scan.diagnostics = [])
    (scanned' : (Reading.ofSource limits.parsing source').scan.diagnostics = [])
    (reports : List.Forall₂ (Diagnostic.Alike lines)
      (Reading.ofSource limits.parsing source).parsed.diagnostics
      (Reading.ofSource limits.parsing source').parsed.diagnostics) :
    (Reading.ofSource limits.parsing source).isClean =
      (Reading.ofSource limits.parsing source').isClean := by
  simp only [Reading.isClean, scanned, scanned', List.isEmpty_nil, Bool.true_and]
  generalize (Reading.ofSource limits.parsing source).parsed.diagnostics = first,
    (Reading.ofSource limits.parsing source').parsed.diagnostics = second at reports
  cases reports <;> rfl

/-- Clean sources whose statements are alike are run to the same end. -/
theorem sameEnd_of_alike {lines : Int → Int → Prop} (executes : treatment.execute = true)
    (clean : (Reading.ofSource limits.parsing source).diagnostics = [])
    (clean' : (Reading.ofSource limits.parsing source').diagnostics = [])
    (alike : Node.AllAlike lines (Reading.ofSource limits.parsing source).statements
      (Reading.ofSource limits.parsing source').statements) (topLevel : TopLevel machine) :
    SameEnd lines (told (run limits rounds treatment source) machine)
      (told (run limits rounds treatment source') machine) := by
  have canonical := areCanonical_prepared treatment clean
  have start := topLevel.note (Reading.ofSource limits.parsing source).trace
  have start' := topLevel.note (Reading.ofSource limits.parsing source').trace
  -- Each reading has left its own lines in the trace.
  have traces : SameEnd Eq
      (runProgram limits.running rounds
        (prepared treatment (Reading.ofSource limits.parsing source).statements)
        (machine.note (Reading.ofSource limits.parsing source).trace))
      (runProgram limits.running rounds
        (prepared treatment (Reading.ofSource limits.parsing source).statements)
        (machine.note (Reading.ofSource limits.parsing source').trace)) :=
    runProgram_untraced limits.running rounds canonical start (by simp)
  rw [told_of_clean executes clean, told_of_clean executes clean']
  exact traces.trans
    (runProgram_alike limits.running rounds canonical start' (prepared_alike treatment alike))

/-- The layout of a text without scan errors does not matter.  Texts with the same
tokens have the same statements and reports up to the lines, which are those of
tokens at the same places, and they run to the same end on every machine between two
programs. -/
theorem layout_immaterial (limits : Limits)
    (same : (Reading.ofSource limits.parsing source).scan.tokens.map Token.content =
      (Reading.ofSource limits.parsing source').scan.tokens.map Token.content)
    (scanned : (Reading.ofSource limits.parsing source).scan.diagnostics = [])
    (scanned' : (Reading.ofSource limits.parsing source').scan.diagnostics = []) :
    let lines := AtOnePlace (Reading.ofSource limits.parsing source).scan.tokens
      (Reading.ofSource limits.parsing source').scan.tokens
    Node.AllAlike lines (Reading.ofSource limits.parsing source).statements
        (Reading.ofSource limits.parsing source').statements ∧
      List.Forall₂ (Diagnostic.Alike lines)
        (Reading.ofSource limits.parsing source).parsed.diagnostics
        (Reading.ofSource limits.parsing source').parsed.diagnostics ∧
      ∀ rounds treatment machine, TopLevel machine →
        SameEnd lines (told (run limits rounds treatment source) machine)
          (told (run limits rounds treatment source') machine) := by
  intro lines
  obtain ⟨alike, reports⟩ := Parsed.ofProgram_alike limits.parsing
    (Token.allAlike_of_content same)
  refine ⟨alike, reports, fun rounds treatment machine topLevel => ?_⟩
  have isClean := isClean_eq_of_reports scanned scanned' reports
  cases runs : (Reading.ofSource limits.parsing source).isClean && treatment.execute with
  | false =>
      have idle := runs
      rw [isClean] at idle
      rw [told_of_idle runs, told_of_idle idle]
      exact .ended .none (by simp)
  | true =>
      obtain ⟨clean, executes⟩ := Bool.and_eq_true_iff.mp runs
      have clean' := clean
      rw [isClean] at clean'
      exact sameEnd_of_alike executes (Reading.isClean_iff.mp clean)
        (Reading.isClean_iff.mp clean') alike topLevel

/-- A program in one line, with a variable that is not declared. -/
def sampleLine : List Char :=
  "print \"a\"; b;".toList

/-- The program over several lines, with comments. -/
def sampleLines : List Char :=
  "print /* two\nlines */ \"a\";\n\nb // none\n;".toList

/-- Both layouts print the line, and each tells of the variable where it stands. -/
theorem layout_immaterial_sample :
    (Reading.ofSource 100 sampleLine).scan.tokens.map Token.content =
        (Reading.ofSource 100 sampleLines).scan.tokens.map Token.content ∧
      (Reading.ofSource 100 sampleLine).scan.diagnostics = [] ∧
      (Reading.ofSource 100 sampleLines).scan.diagnostics = [] ∧
      TopLevel (Machine.initial false) ∧
      SameEnd (AtOnePlace (Reading.ofSource 100 sampleLine).scan.tokens
          (Reading.ofSource 100 sampleLines).scan.tokens)
        (told (run (.uniform 100) 0 .script sampleLine) (Machine.initial false))
        (told (run (.uniform 100) 0 .script sampleLines) (Machine.initial false)) ∧
      (told (run (.uniform 100) 0 .script sampleLine)).run' (Machine.initial false) =
        some (some ⟨.runtime, 1, "", "Undefined variable 'b'."⟩) ∧
      (told (run (.uniform 100) 0 .script sampleLines)).run' (Machine.initial false) =
        some (some ⟨.runtime, 4, "", "Undefined variable 'b'."⟩) := by
  have same : (Reading.ofSource 100 sampleLine).scan.tokens.map Token.content =
      (Reading.ofSource 100 sampleLines).scan.tokens.map Token.content := by decide +kernel
  have scanned : (Reading.ofSource 100 sampleLine).scan.diagnostics = [] := by decide +kernel
  have scanned' : (Reading.ofSource 100 sampleLines).scan.diagnostics = [] := by decide +kernel
  have topLevel := topLevel_initial false
  refine ⟨same, scanned, scanned', topLevel,
    (layout_immaterial (.uniform 100) same scanned scanned').2.2 0 .script _ topLevel, ?_, ?_⟩
  all_goals decide +kernel

end Session

end TreeWalker
