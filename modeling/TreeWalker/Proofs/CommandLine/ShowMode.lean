import TreeWalker.Proofs.CommandLine.RunMode
import TreeWalker.Proofs.Grammar.Chain
import TreeWalker.Proofs.Text.Ascii
import TreeWalker.Proofs.Tree.Rendering

/-!
# Show mode

A script that can be loaded is shown without being run, and the exit status tells
of a problem of its text exactly if that of a run does.  One failure escapes: a
tree that is higher than there are levels for showing it is not shown.  The parser accepts
such trees, since it needs no nesting for the operands of a long sum.
-/

namespace TreeWalker.CommandLine

open Evaluation Grammar

/-- Levels that there are for showing a statement. -/
def shownLimit (limits : Limits) : Bool → Nat
  | false => limits.outlining
  | true => limits.polishing

/-- Levels that showing a statement takes. -/
def shownHeight (limits : Limits) (rpn : Bool) (statement : Node) : Nat :=
  match rpn, statement.soleExpression? with
  | false, _ => statement.outlineHeight limits.stride limits.toll
  | true, some expr => expr.height 1 limits.toll
  | true, none => 0

/-- What the transcript of showing a script tells, beside that of running it, when its
text was read in the given way. -/
structure Agrees (limits : Limits) (settings : Settings) (source : List Char) (reading : Reading)
    (start : Machine) (shown run : Transcript) : Prop where
  /-- Nothing is run, and only the trace of the reading is on the machine. -/
  unexecuted : ∀ rounds,
    Session.run limits rounds .readOnly source (Machine.initial settings.debug) =
    .ok ⟨reading.statements, reading.scan.diagnostics, reading.parsed.diagnostics, none⟩ start
  /-- A failure escapes from a tree that is higher than there are levels for it. -/
  escapes : shown.ending = .failure (.rendering .overNested) ↔
    ∃ statement ∈ reading.statements,
      shownLimit limits settings.rpn < shownHeight limits settings.rpn statement
  /-- Otherwise the status tells of the text what that of a run tells. -/
  ends : shown.ending ≠ .failure (.rendering .overNested) →
    (shown.ending = .exit 0 ∨ shown.ending = .exit 65) ∧
      (shown.ending = .exit 65 ↔ run.ending = .exit 65)

/-! ## Statements -/

section Statements

variable {limits : Limits} {rpn : Bool} {statements : List Node}

theorem needs_showStatement {statement : Node} (forms : statement.FormsStatement) :
    Needs (shownHeight limits rpn statement) (shownLimit limits rpn)
      (showStatement limits rpn statement) := by
  cases rpn with
  | false =>
      simp only [shownHeight, shownLimit, showStatement]
      exact Node.needs_outline limits.stride limits.toll forms limits.outlining 0
  | true =>
      cases statement with
      | exprStmt expr | printStmt expr =>
          exact (Node.needs_reversePolish limits.toll forms limits.polishing).map
      | _ => exact .text ""

/-- Statements that are not too high are shown. -/
theorem showStatements_of_shallow (forms : ∀ statement ∈ statements, statement.FormsStatement)
    (shallow : ∀ statement ∈ statements,
      shownHeight limits rpn statement ≤ shownLimit limits rpn) :
    (showStatements limits rpn statements).ending = .exit 0 := by
  induction statements with
  | nil => rfl
  | cons first statements inductionHypothesis =>
      obtain ⟨text, shown⟩ := (needs_showStatement (forms first List.mem_cons_self)).shown
        (shallow first List.mem_cons_self)
      rw [showStatements, shown]
      exact inductionHypothesis (fun other member => forms other (List.mem_cons_of_mem _ member))
        fun other member => shallow other (List.mem_cons_of_mem _ member)

/-- Statements are shown up to the first that is too high. -/
theorem showStatements_of_high (forms : ∀ statement ∈ statements, statement.FormsStatement)
    (high : ∃ statement ∈ statements,
      shownLimit limits rpn < shownHeight limits rpn statement) :
    (showStatements limits rpn statements).ending = .failure (.rendering .overNested) := by
  induction statements with
  | nil =>
      obtain ⟨_, member, _⟩ := high
      exact absurd member List.not_mem_nil
  | cons first statements inductionHypothesis =>
      have needs : Needs (shownHeight limits rpn first) (shownLimit limits rpn)
          (showStatement limits rpn first) := needs_showStatement (forms first List.mem_cons_self)
      by_cases fits : shownHeight limits rpn first ≤ shownLimit limits rpn
      · obtain ⟨text, shown⟩ := needs.shown fits
        have later : ∃ statement ∈ statements,
            shownLimit limits rpn < shownHeight limits rpn statement := by
          obtain ⟨statement, member, tooHigh⟩ := high
          rcases List.mem_cons.mp member with rfl | member
          · exact absurd fits (Nat.not_le_of_lt tooHigh)
          · exact ⟨statement, member, tooHigh⟩
        rw [showStatements, shown]
        exact inductionHypothesis (fun other member => forms other (List.mem_cons_of_mem _ member))
          later
      · rw [showStatements, needs.givenUp (Nat.lt_of_not_le fits)]

end Statements

/-! ## Scripts -/

section Script

variable {host : Host} {files : Script.Files} {settings : Settings} {name : String}
  {source : List Char}

/-- The statements that are read are well formed, whatever is wrong with the text. -/
theorem formStatements_of_reading (limit : Nat) (source : List Char) :
    ∀ statement ∈ (Reading.ofSource limit source).statements, statement.FormsStatement := by
  obtain ⟨cursor, parsed, _⟩ := Reading.exists_program limit source
  exact Yields.program formation_formsStatement limit _ _ cursor parsed

/-- A text that is only read leaves nothing on a machine but the trace of that. -/
theorem run_readOnly (limits : Limits) (rounds : Nat) (settings : Settings)
    (source : List Char) :
    Session.run limits rounds .readOnly source (Machine.initial settings.debug) =
      .ok ⟨(Reading.ofSource limits.parsing source).statements,
        (Reading.ofSource limits.parsing source).scan.diagnostics,
        (Reading.ofSource limits.parsing source).parsed.diagnostics, none⟩
        (startOf limits settings source) := by
  simp only [Session.run, Session.runBy, Treatment.readOnly, Bool.and_false, Bool.false_eq_true,
    if_false]
  rfl

/-- Status for a text of which nothing was run. -/
theorem verdict_unexecuted (limit : Nat) (source : List Char) :
    (Outcome.verdict ⟨(Reading.ofSource limit source).statements,
      (Reading.ofSource limit source).scan.diagnostics,
      (Reading.ofSource limit source).parsed.diagnostics, none⟩).status =
      if (Reading.ofSource limit source).diagnostics = [] then 0 else 65 := by
  by_cases clean : (Reading.ofSource limit source).diagnostics = []
  · obtain ⟨noScan, noParse⟩ := List.append_eq_nil_iff.mp clean
    rw [if_pos clean, noScan, noParse]
    rfl
  · have unclean := mt Reading.isClean_iff.mp clean
    rw [if_neg clean, Outcome.verdict, if_pos]
    · rfl
    · simpa [Reading.isClean, Bool.and_eq_true, ← not_and_or] using unclean

section Loaded

variable (rounds : Nat) (loaded : Script.load files (Script.tidy name) = .ok source)

include loaded

/-- A script that is shown to its end exits with the status for its text. -/
theorem showScript_of_exit
    (shown : (showStatements host.limits settings.rpn
      (Reading.ofSource host.limits.parsing source).statements).ending = .exit 0) :
    (showScript host rounds files settings name).ending =
      .exit (if (Reading.ofSource host.limits.parsing source).diagnostics = [] then 0 else 65) := by
  rw [← verdict_unexecuted]
  simp only [showScript, withScript, loaded, treat, run_readOnly, Transcript.after, shown]

theorem showScript_of_failure {failure : Failure}
    (shown : (showStatements host.limits settings.rpn
      (Reading.ofSource host.limits.parsing source).statements).ending = .failure failure) :
    (showScript host rounds files settings name).ending = .failure failure := by
  simp only [showScript, withScript, loaded, treat, run_readOnly, Transcript.after, shown]

/-- Running a script ends with the status for an invalid text exactly if there is a
problem of the text. -/
theorem runScript_invalid_iff :
    (runScript host rounds files settings name).ending = .exit 65 ↔
      (Reading.ofSource host.limits.parsing source).diagnostics ≠ [] := by
  by_cases clean : (Reading.ofSource host.limits.parsing source).diagnostics = []
  · rcases concludes_or_unfinished host.limits.running rounds (Reading.areCanonical clean)
      (topLevel_startOf host.limits settings source) with
      ⟨runtime, after, concludes⟩ | ⟨after, ends⟩
    · exact (faithful_of_concludes rounds loaded clean concludes).invalid
    · exact (faithful_of_unfinished rounds loaded clean ends).invalid
  · exact (faithful_of_problem rounds loaded clean).invalid

end Loaded

/-- A script that can be loaded is shown without being run.  Unless a tree in it is
higher than there are levels for showing it, the status is 65 where that of a run is, and 0
otherwise. -/
theorem showScript_agrees (host : Host) (rounds rounds' : Nat) (settings : Settings)
    (loaded : Script.load files (Script.tidy name) = .ok source) :
    Agrees host.limits settings source (Reading.ofSource host.limits.parsing source)
      (startOf host.limits settings source) (showScript host rounds files settings name)
      (runScript host rounds' files settings name) := by
  have forms := formStatements_of_reading host.limits.parsing source
  have invalid : (runScript host rounds' files settings name).ending = .exit 65 ↔ _ :=
    runScript_invalid_iff rounds' loaded
  have unexecuted (rounds : Nat) := run_readOnly host.limits rounds settings source
  by_cases high : ∃ statement ∈ (Reading.ofSource host.limits.parsing source).statements,
      shownLimit host.limits settings.rpn < shownHeight host.limits settings.rpn statement
  · have fails := showScript_of_failure rounds loaded (showStatements_of_high forms high)
    exact ⟨unexecuted, ⟨fun _ => high, fun _ => fails⟩, fun other => absurd fails other⟩
  · have shallow : ∀ statement ∈ (Reading.ofSource host.limits.parsing source).statements,
        shownHeight host.limits settings.rpn statement ≤ shownLimit host.limits settings.rpn :=
      fun statement member => Nat.le_of_not_lt fun tooHigh => high ⟨statement, member, tooHigh⟩
    have ends := showScript_of_exit rounds loaded (showStatements_of_shallow forms shallow)
    refine ⟨unexecuted, ?_, fun _ => ?_⟩
    · rw [ends]
      exact ⟨fun impossible => (by cases impossible), fun tooHigh => absurd tooHigh high⟩
    · rw [ends, invalid]
      by_cases clean : (Reading.ofSource host.limits.parsing source).diagnostics = []
      · simp [clean]
      · simp [clean]

/-- The sample is shown to its end, though a run of it is stopped. -/
theorem showScript_agrees_sample :
    Script.load sampleFiles (Script.tidy "sample") = .ok "print nil; a;".toList ∧
      showScript sampleHost 0 sampleFiles Settings.initial "sample" =
        ⟨"Print nil\nExpression a\n", "", .exit 0⟩ ∧
      Agrees sampleHost.limits Settings.initial "print nil; a;".toList
        (Reading.ofSource 100 "print nil; a;".toList)
        (startOf sampleHost.limits Settings.initial "print nil; a;".toList)
        (showScript sampleHost 0 sampleFiles Settings.initial "sample")
        (runScript sampleHost 0 sampleFiles Settings.initial "sample") := by
  have loaded : Script.load sampleFiles (Script.tidy "sample") = .ok "print nil; a;".toList := by
    decide +kernel
  refine ⟨loaded, ?_, showScript_agrees sampleHost 0 0 Settings.initial loaded⟩
  decide +kernel

end Script

/-! ## Sums that are not shown -/

/-- A file system in which every file holds a sum with so many operators. -/
def sumFiles (count : Nat) : Script.Files :=
  fun _ => .ok ((sumText count).map Text.asciiByte)

theorem sumText_ascii (count : Nat) : ∀ c ∈ sumText count, Text.IsAscii c ∧ c ≠ '\r' := by
  have tail : ∀ c ∈ sumTail count, Text.IsAscii c ∧ c ≠ '\r' := by
    induction count with
    | zero => simp [sumTail, Text.IsAscii]
    | succ count inductionHypothesis => simpa [sumTail, Text.IsAscii] using inductionHypothesis
  simpa [sumText, Text.IsAscii] using tail

theorem load_sumFiles (count : Nat) (path : String) :
    Script.load (sumFiles count) path = .ok (sumText count) := by
  have characters := sumText_ascii count
  have same : Script.text ((sumText count).map Text.asciiByte) = .ok (sumText count) :=
    Script.text_ascii (fun c member => (characters c member).1)
      fun member => (characters _ member).2 rfl
  simp only [Script.load, sumFiles, same]
  rfl

/-- Each operator of a sum puts its operands a stride further down. -/
theorem height_summed {stride : Nat} {toll : Value → Nat} {left : Node}
    (positive : 0 < left.height stride toll) (count : Nat) :
    (summed left count).height stride toll = left.height stride toll + stride * count := by
  induction count generalizing left with
  | zero => rfl
  | succ count inductionHypothesis =>
      have grown : (Node.binary left plusToken (.reference (letter "a"))).height stride toll =
          left.height stride toll + stride := by
        rw [Node.height, Node.height, Nat.max_eq_left positive]
      rw [summed, inductionHypothesis (by omega), grown, Nat.mul_succ]
      omega

/-- What a sum takes to be shown grows with the number of its operators. -/
theorem count_lt_shownHeight {limits : Limits} (down : 0 < limits.stride) (rpn : Bool)
    (count : Nat) : count < shownHeight limits rpn (sumStatement count) := by
  have first (stride : Nat) : (Node.reference (letter "a")).height stride limits.toll = 1 := by
    rw [Node.height]
  have height (stride : Nat) :
      (summed (.reference (letter "a")) count).height stride limits.toll = 1 + stride * count := by
    rw [height_summed (by rw [first]; exact Nat.one_pos), first]
  cases rpn with
  | false =>
      have longer : count ≤ limits.stride * count := Nat.le_mul_of_pos_left count down
      rw [shownHeight, sumStatement, Node.outlineHeight, height]
      omega
  | true =>
      simp only [shownHeight, sumStatement, Node.soleExpression?, height]
      omega

/-- A sum with as many operators as there are levels for showing it is read without a
problem, and its tree is not shown. -/
theorem sum_not_shown {host : Host} {settings : Settings} {count : Nat}
    (fits : 3 ≤ host.limits.parsing) (down : 0 < host.limits.stride)
    (long : shownLimit host.limits settings.rpn ≤ count) (rounds : Nat) (name : String) :
    (Reading.ofSource host.limits.parsing (sumText count)).diagnostics = [] ∧
      (showScript host rounds (sumFiles count) settings name).ending =
        .failure (.rendering .overNested) := by
  have reading := ofSource_sumText fits count
  refine ⟨by rw [reading]; rfl, ?_⟩
  apply showScript_of_failure rounds (load_sumFiles count _)
  apply showStatements_of_high (formStatements_of_reading _ _)
  rw [reading]
  exact ⟨sumStatement count, List.mem_singleton_self _,
    Nat.lt_of_le_of_lt long (count_lt_shownHeight down settings.rpn count)⟩

/-- With `--parse` and with `--rpn`, a failure escapes from the sum of 2500 operands where
there is a stack of a thousand frames. -/
theorem sum_fails_at_limit :
    Script.load (sumFiles 2499) (Script.tidy "sum") = .ok (sumText 2499) ∧
      ∀ rpn, ¬ ∃ status, (showScript ⟨.practical, id⟩ 0 (sumFiles 2499)
        { Settings.initial with parse := true, rpn := rpn } "sum").ending = .exit status := by
  refine ⟨load_sumFiles 2499 _, fun rpn => ?_⟩
  rintro ⟨status, exits⟩
  have long : shownLimit .practical rpn ≤ 2499 := by cases rpn <;> decide
  rw [(sum_not_shown (by decide) (by decide) long 0 _).2] at exits
  cases exits

end TreeWalker.CommandLine
