import TreeWalker.Proofs.Evaluation.Stopping
import TreeWalker.Proofs.Evaluation.Tracing
import TreeWalker.Proofs.Grammar.Totality
import TreeWalker.Proofs.Lexical.Decomposition

/-!
# Running a source

A source is scanned into tokens that end in just one token for the end, so the
parser comes to a result, and what it finds in a clean source is canonical.  Then
the statements run as a program does; otherwise nothing runs.
-/

namespace TreeWalker

open Evaluation Grammar

/-! ## Reading -/

namespace Reading

variable {limit : Nat} {source : List Char}

/-- The scanner sets the end of the source. -/
theorem ended_tokens (limit : Nat) (source : List Char) :
    Ended (ofSource limit source).scan.tokens := by
  change Ended (Lexical.Scan.ofText source).tokens
  rw [Lexical.tokens_ofText]
  exact (ended_singleton rfl).append_left _

/-- The parser comes to the result that is read. -/
theorem exists_program (limit : Nat) (source : List Char) :
    ∃ cursor, program limit (Cursor.atStart (ofSource limit source).scan.tokens) =
        .ok (ofSource limit source).statements cursor ∧
      (ofSource limit source).parsed.diagnostics = cursor.diagnostics := by
  have ended : Ended (Cursor.atStart (ofSource limit source).scan.tokens).ahead :=
    ended_tokens limit source
  rcases succeeds_program limit _ ended with ⟨statements, cursor, run⟩
  have parsed : (ofSource limit source).parsed = ⟨statements, cursor.diagnostics⟩ := by
    change parseWith _ _ (ofSource limit source).scan.tokens = _
    rw [parseWith, run]
  refine ⟨cursor, ?_, by rw [parsed]⟩
  rw [run, Reading.statements, parsed]

theorem isClean_iff :
    (ofSource limit source).isClean = true ↔ (ofSource limit source).diagnostics = [] := by
  simp [isClean, diagnostics]

/-- The parser reads the tokens that the scanner gives. -/
theorem parsed_ofSource (source : List Char) :
    (ofSource limit source).parsed = Parsed.ofProgram limit (Lexical.Scan.ofText source).tokens :=
  rfl

/-- Tokens that are parsed without a report. -/
theorem parsed_of_noReport (noReport : (ofSource limit source).parsed.diagnostics = []) :
    Parsed.ofProgram limit (Lexical.bodyOf source ++ [Lexical.endToken (Lexical.lastLine source)]) =
      ⟨(ofSource limit source).statements, []⟩ := by
  rw [← Lexical.tokens_ofText, ← parsed_ofSource, ← noReport]
  rfl

/-- A clean source is one whose tokens are parsed without a report. -/
theorem parsed_of_clean (clean : (ofSource limit source).diagnostics = []) :
    Parsed.ofProgram limit (Lexical.bodyOf source ++ [Lexical.endToken (Lexical.lastLine source)]) =
      ⟨(ofSource limit source).statements, []⟩ :=
  parsed_of_noReport (List.append_eq_nil_iff.mp clean).2

/-- The statements of a clean source are canonical. -/
theorem areCanonical (clean : (ofSource limit source).diagnostics = []) :
    Node.AreCanonical (ofSource limit source).statements :=
  areCanonical_of_parsed Lexical.kind_ne_eof_of_mem_bodyOf rfl (parsed_of_clean clean)

end Reading

/-! ## Running -/

namespace Session

variable {limits : Limits} {source : List Char} (rounds : Nat) {treatment : Treatment}
variable (machine : Machine)

/-- A source with a problem is not run: only the trace can change. -/
theorem run_of_problem (treatment : Treatment)
    (problem : (Reading.ofSource limits.parsing source).diagnostics ≠ []) :
    run limits rounds treatment source machine =
      .ok ⟨(Reading.ofSource limits.parsing source).statements,
        (Reading.ofSource limits.parsing source).scan.diagnostics,
        (Reading.ofSource limits.parsing source).parsed.diagnostics, none⟩
        (machine.note (Reading.ofSource limits.parsing source).trace) := by
  have unclean : (Reading.ofSource limits.parsing source).isClean = false :=
    Bool.eq_false_iff.mpr (mt Reading.isClean_iff.mp problem)
  simp only [run, runBy, unclean, Bool.false_and, Bool.false_eq_true, if_false]
  rfl

/-- A clean source is run as a program. -/
theorem run_of_clean (executes : treatment.execute = true)
    (clean : (Reading.ofSource limits.parsing source).diagnostics = []) :
    run limits rounds treatment source machine =
      (runProgram limits.running rounds
          (prepared treatment (Reading.ofSource limits.parsing source).statements) >>=
        fun problem =>
          pure ⟨prepared treatment (Reading.ofSource limits.parsing source).statements, [], [],
            problem⟩) (machine.note (Reading.ofSource limits.parsing source).trace) := by
  have isClean := Reading.isClean_iff.mpr clean
  simp only [run, runBy, isClean, executes, Bool.and_self, if_true]
  rfl

end Session

/-! ## Machines between two programs -/

namespace Evaluation

theorem TopLevel.note {machine : Machine} (topLevel : TopLevel machine) (lines : List String) :
    TopLevel (machine.note lines) := by
  constructor
  · rw [machine.note_arena]
    exact topLevel.scopes
  · rw [machine.note_current]
    exact topLevel.current
  · rw [machine.note_arena]
    exact topLevel.next

theorem TopLevel.links {machine : Machine} (topLevel : TopLevel machine) :
    machine.arena.links = [(Scope.globalHandle, none)] := by
  rcases topLevel.scopes with ⟨bindings, scopes⟩
  rw [Scope.Arena.links, scopes]
  rfl

theorem TopLevel.standing {machine : Machine} (topLevel : TopLevel machine) :
    Standing machine := by
  constructor
  · rw [topLevel.links]
    exact .global_alone topLevel.next
  · rw [topLevel.links, topLevel.current]
    exact .outermost List.mem_cons_self

/-- A machine whose scopes were restored is between two programs if it was so
before. -/
theorem TopLevel.of_restored {machine after : Machine} (topLevel : TopLevel machine)
    (restored : Restored machine after) : TopLevel after := by
  constructor
  · have links := restored.links.trans topLevel.links
    rcases List.map_eq_singleton_iff.mp links with ⟨⟨handle, parent, bindings⟩, scopes, same⟩
    obtain ⟨rfl, rfl⟩ := Prod.mk.inj same
    exact ⟨bindings, scopes⟩
  · exact restored.current.trans topLevel.current
  · exact Int.lt_of_lt_of_le topLevel.next restored.next

/-- Machines that differ in their traces only are between two programs or not. -/
theorem TopLevel.of_untraced {machine machine' : Machine} (topLevel : TopLevel machine)
    (same : machine.untraced = machine'.untraced) : TopLevel machine' := by
  have arena : machine.arena = machine'.arena := congrArg (·.arena) same
  have current : machine.current = machine'.current := congrArg (·.current) same
  constructor
  · rw [← arena]
    exact topLevel.scopes
  · rw [← current]
    exact topLevel.current
  · rw [← arena]
    exact topLevel.next

end Evaluation

end TreeWalker
