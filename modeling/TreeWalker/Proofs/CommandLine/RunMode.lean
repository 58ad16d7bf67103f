import TreeWalker.CommandLine.Scripts
import TreeWalker.Proofs.Evaluation.Rounds
import TreeWalker.Proofs.Session.Running

/-!
# Run mode

A script that can be loaded is run to one of three exit statuses, unless a loop
is out of rounds.  The status tells whether the text was clean and, if so,
whether a problem has stopped the run; the standard output holds what was printed
up to then; and the standard error reports all problems, each once and in the
order in which they were found, after the trace if there is one.
-/

namespace TreeWalker.CommandLine

open Evaluation Grammar
open Reference (Executes)

/-- What the transcript of a script tells, when its text was read in the given way
and its statements start on the given machine. -/
structure Faithful (limits : Limits) (rounds : Nat) (paint : String → String)
    (source : List Char) (reading : Reading) (start : Machine) (transcript : Transcript) :
    Prop where
  /-- The parser has come to a result, whatever the text. -/
  parses : ∃ cursor, Grammar.program limits.parsing (Cursor.atStart reading.scan.tokens) =
    .ok reading.statements cursor ∧ reading.parsed.diagnostics = cursor.diagnostics
  /-- Nothing escapes, and only a loop can keep the run from an end. -/
  ends : (∃ status ∈ [0, 65, 70], transcript.ending = .exit status) ∨
    transcript.ending = .failure (.abort .unfinished) ∧ reading.diagnostics = [] ∧
      ∃ after, inOrder (perform rounds limits.running) reading.statements start =
        .error .unfinished after
  /-- The status tells of problems of the text. -/
  invalid : transcript.ending = .exit 65 ↔ reading.diagnostics ≠ []
  /-- Then nothing has run. -/
  untouched : reading.diagnostics ≠ [] → transcript.stdout = "" ∧
    ∃ outcome, Session.run limits rounds .script source (Machine.initial start.tracing) =
      .ok outcome start
  /-- The status tells of a problem of the run. -/
  aborted : transcript.ending = .exit 70 ↔ reading.diagnostics = [] ∧
    ∃ problem after, StopsWith limits.running rounds reading.statements start problem after
  /-- Then the lines printed up to it are shown. -/
  printed : ∀ problem after, reading.diagnostics = [] →
    StopsWith limits.running rounds reading.statements start problem after →
    transcript.stdout = linesOf after.output.toList
  /-- After the trace all problems are reported in color, those of the text before that of
  the run. -/
  reported : ∀ status, transcript.ending = .exit status → ∃ runtime outcome final,
    Session.run limits rounds .script source (Machine.initial start.tracing) = .ok outcome final ∧
    transcript.stderr = linesOf final.trace.toList ++ Diagnostic.reportText paint (some source)
      (reading.scan.diagnostics ++ reading.parsed.diagnostics ++ runtime.toList) ∧
    (start.tracing = false → final.trace = #[]) ∧
    ∀ problem, runtime = some problem ↔ reading.diagnostics = [] ∧
      ∃ after, StopsWith limits.running rounds reading.statements start problem after
  /-- A run that is not nested too deeply does what the rules of the language say. -/
  meant : reading.diagnostics = [] → Shallow limits.running reading.statements start →
    ∀ status, transcript.ending = .exit status → ∃ lines env outcome,
      Executes (.all reading.statements) [∅] lines env outcome ∧
      transcript.stdout = linesOf lines ∧
      (status = 70 ↔ ∃ failure, outcome = .error failure)

section Script

variable {host : Host} {rounds : Nat} {files : Script.Files} {settings : Settings}
  {name : String} {source : List Char} {after : Machine}

theorem runScript_of_ok {outcome : Outcome}
    (loaded : Script.load files (Script.tidy name) = .ok source)
    (run : Session.run host.limits rounds .script source (Machine.initial settings.debug) =
      .ok outcome after) :
    runScript host rounds files settings name =
      ⟨linesOf after.output.toList,
        linesOf after.trace.toList ++ outcome.reportText (host.paint settings) source,
        .exit outcome.verdict.status⟩ := by
  simp only [runScript, withScript, loaded, treat, run, silence, Transcript.after,
    String.append_empty]

theorem runScript_of_error {abort : Abort}
    (loaded : Script.load files (Script.tidy name) = .ok source)
    (run : Session.run host.limits rounds .script source (Machine.initial settings.debug) =
      .error abort after) :
    runScript host rounds files settings name =
      ⟨linesOf after.output.toList, linesOf after.trace.toList, .failure (.abort abort)⟩ := by
  simp only [runScript, withScript, loaded, treat, run]

/-- The machine on which the statements of a script start. -/
def startOf (limits : Limits) (settings : Settings) (source : List Char) : Machine :=
  (Machine.initial settings.debug).note (Reading.ofSource limits.parsing source).trace

theorem topLevel_startOf (limits : Limits) (settings : Settings) (source : List Char) :
    TopLevel (startOf limits settings source) :=
  (topLevel_initial settings.debug).note _

theorem tracing_startOf (limits : Limits) (settings : Settings) (source : List Char) :
    (startOf limits settings source).tracing = settings.debug := by
  unfold startOf Machine.note
  split <;> rfl

theorem output_startOf (limits : Limits) (settings : Settings) (source : List Char) :
    (startOf limits settings source).output = #[] := by
  unfold startOf Machine.note
  split <;> rfl

theorem globalsOf_startOf (limits : Limits) (settings : Settings) (source : List Char) :
    globalsOf (startOf limits settings source) = ∅ := by
  unfold startOf Machine.note
  split <;> rfl

/-- Whatever a run of a script has written to the trace, it is nothing if there is
none. -/
theorem trace_of_run {outcome : Outcome} (quiet : settings.debug = false)
    (run : Session.run host.limits rounds .script source (Machine.initial settings.debug) =
      .ok outcome after) : after.trace = #[] := by
  have traceless := (Traceless.session host.limits rounds .script source).trace_leftBy
    (standing_initial settings.debug) quiet rfl
  rwa [leftBy, run] at traceless

/-- A run that has ended was stopped by the problem it tells, and by no other. -/
structure Concludes (limit rounds : Nat) (statements : List Node) (start : Machine)
    (runtime : Option Diagnostic) (after : Machine) : Prop where
  run : runProgram limit rounds statements start = .ok runtime after
  stops : ∀ problem, runtime = some problem ↔
    ∃ stopped, StopsWith limit rounds statements start problem stopped
  output : ∀ problem stopped, StopsWith limit rounds statements start problem stopped →
    after.output = stopped.output

/-- A clean program comes to an end, or a loop in it is out of rounds. -/
theorem concludes_or_unfinished (limit rounds : Nat) {statements : List Node} {start : Machine}
    (canonical : Node.AreCanonical statements) (topLevel : TopLevel start) :
    (∃ runtime after, Concludes limit rounds statements start runtime after) ∨
      ∃ after, inOrder (perform rounds limit) statements start = .error .unfinished after := by
  rcases inOrder_cases limit rounds canonical topLevel with
    ⟨after, ends⟩ | ⟨problem, after, stops⟩ | unfinished
  · have goesOn : ∀ problem stopped, ¬ StopsWith limit rounds statements start problem stopped := by
      intro problem stopped stops
      rcases stops.inOrder with ⟨abort, aborts, _⟩
      rw [ends] at aborts
      cases aborts
    refine Or.inl ⟨none, after, runProgram_of_inOrder ends, fun problem => ?_, ?_⟩
    · refine ⟨fun impossible => (by cases impossible), ?_⟩
      rintro ⟨stopped, stops⟩
      exact absurd stops (goesOn problem stopped)
    · exact fun problem stopped stops => absurd stops (goesOn problem stopped)
  · rcases stops.runProgram with ⟨told, run⟩
    refine Or.inl ⟨some problem, _, run, fun problem' => ?_, fun problem' stopped stops' => ?_⟩
    · constructor
      · rintro ⟨⟩
        exact ⟨after, stops⟩
      · rintro ⟨stopped, stops'⟩
        rw [(stops.unique stops').1]
    · rw [← (stops.unique stops').2, Machine.note]
      split <;> rfl
  · exact Or.inr unfinished

/-- What a finished run has printed is what the rules of the language say. -/
theorem executes_of_runProgram {problem : Option Diagnostic}
    (clean : (Reading.ofSource host.limits.parsing source).diagnostics = [])
    (shallow : Shallow host.limits.running (Reading.ofSource host.limits.parsing source).statements
      (startOf host.limits settings source))
    (run : runProgram host.limits.running rounds
      (Reading.ofSource host.limits.parsing source).statements
      (startOf host.limits settings source) = .ok problem after) :
    ∃ lines env outcome,
      Executes (.all (Reading.ofSource host.limits.parsing source).statements) [∅] lines env
        outcome ∧ after.output.toList = lines ∧ problem = diagnosticOf outcome := by
  rcases runProgram_sound rounds (Reading.areCanonical clean)
    (topLevel_startOf host.limits settings source)
    shallow with ⟨_, _, lines, env, outcome, comes, executes, tells⟩ | ⟨_, unfinished⟩
  · rw [run] at comes
    rcases EStateM.Result.ok.inj comes with ⟨rfl, rfl⟩
    rw [globalsOf_startOf] at executes
    refine ⟨lines, env, outcome, executes, ?_, tells.problem⟩
    rw [tells.output, output_startOf]
    rfl
  · rw [run] at unfinished
    cases unfinished

/-- A clean script is run as a program. -/
theorem run_script_of_clean (rounds : Nat) (settings : Settings)
    (clean : (Reading.ofSource host.limits.parsing source).diagnostics = []) :
    Session.run host.limits rounds .script source (Machine.initial settings.debug) =
      (runProgram host.limits.running rounds
          (Reading.ofSource host.limits.parsing source).statements >>= fun problem =>
        pure ⟨(Reading.ofSource host.limits.parsing source).statements, [], [], problem⟩)
        (startOf host.limits settings source) :=
  Session.run_of_clean rounds _ rfl clean

section Cases

variable (rounds : Nat) (loaded : Script.load files (Script.tidy name) = .ok source)

include loaded

theorem faithful_of_problem
    (problem : (Reading.ofSource host.limits.parsing source).diagnostics ≠ []) :
    Faithful host.limits rounds (host.paint settings) source
      (Reading.ofSource host.limits.parsing source)
      (startOf host.limits settings source) (runScript host rounds files settings name) := by
  have run := Session.run_of_problem rounds (Machine.initial settings.debug) .script problem
  have transcript := runScript_of_ok loaded run
  have verdict : Outcome.verdict ⟨(Reading.ofSource host.limits.parsing source).statements,
      (Reading.ofSource host.limits.parsing source).scan.diagnostics,
      (Reading.ofSource host.limits.parsing source).parsed.diagnostics, none⟩ = .invalidSource := by
    have unclean := mt Reading.isClean_iff.mp problem
    rw [Outcome.verdict, if_pos]
    simpa [Reading.isClean, Bool.and_eq_true, ← not_and_or] using unclean
  rw [verdict] at transcript
  rw [transcript]
  constructor
  · exact Reading.exists_program _ source
  · exact Or.inl ⟨65, by simp, rfl⟩
  · exact ⟨fun _ => problem, fun _ => rfl⟩
  · intro _
    constructor
    · change linesOf (startOf host.limits settings source).output.toList = ""
      rw [output_startOf]
      rfl
    · rw [tracing_startOf]
      exact ⟨_, run⟩
  · exact ⟨fun impossible => (by cases impossible), fun stopped => absurd stopped.1 problem⟩
  · exact fun _ _ clean => absurd clean problem
  · rw [tracing_startOf]
    refine fun _ _ => ⟨none, _, _, run, rfl, fun quiet => trace_of_run quiet run, fun _ => ?_⟩
    exact ⟨fun impossible => (by cases impossible), fun stopped => absurd stopped.1 problem⟩
  · exact fun clean => absurd clean problem

theorem faithful_of_concludes {runtime : Option Diagnostic}
    (clean : (Reading.ofSource host.limits.parsing source).diagnostics = [])
    (concludes : Concludes host.limits.running rounds
      (Reading.ofSource host.limits.parsing source).statements
      (startOf host.limits settings source) runtime after) :
    Faithful host.limits rounds (host.paint settings) source
      (Reading.ofSource host.limits.parsing source)
      (startOf host.limits settings source) (runScript host rounds files settings name) := by
  have run := (run_script_of_clean rounds settings clean).trans (bind_apply_ok concludes.run)
  have transcript := runScript_of_ok loaded run
  have verdict : Outcome.verdict
      ⟨(Reading.ofSource host.limits.parsing source).statements, [], [], runtime⟩ =
      if runtime.isSome then .aborted else .success := rfl
  have isSome : runtime.isSome = true ↔ ∃ problem stopped,
      StopsWith host.limits.running rounds
        (Reading.ofSource host.limits.parsing source).statements
        (startOf host.limits settings source) problem stopped := by
    rw [Option.isSome_iff_exists]
    exact exists_congr concludes.stops
  obtain ⟨noScan, noParse⟩ := List.append_eq_nil_iff.mp clean
  rw [verdict] at transcript
  rw [transcript]
  constructor
  · exact Reading.exists_program _ source
  · refine Or.inl ⟨_, ?_, rfl⟩
    split <;> simp [Verdict.status]
  · refine ⟨fun invalid => ?_, fun problem => absurd clean problem⟩
    dsimp only at invalid
    split at invalid <;> cases invalid
  · exact fun problem => absurd clean problem
  · rw [← isSome]
    refine ⟨fun aborted => ⟨clean, ?_⟩, fun stopped => by rw [if_pos stopped.2]; rfl⟩
    dsimp only at aborted
    split at aborted
    · assumption
    · cases aborted
  · intro problem stopped _ stops
    rw [concludes.output problem stopped stops]
  · rw [tracing_startOf]
    refine fun _ _ => ⟨runtime, _, after, run, ?_, fun quiet => trace_of_run quiet run,
      fun problem => ?_⟩
    · rw [noScan, noParse]
      rfl
    · rw [concludes.stops problem]
      exact ⟨fun stops => ⟨clean, stops⟩, And.right⟩
  · rintro _ shallow status isStatus
    rcases executes_of_runProgram clean shallow concludes.run with
      ⟨lines, env, outcome, executes, printed, told⟩
    refine ⟨lines, env, outcome, executes, by rw [← printed], ?_⟩
    cases isStatus
    subst told
    cases outcome with
    | ok => simp [diagnosticOf, Verdict.status]
    | error failure => simp [diagnosticOf, Verdict.status]

theorem faithful_of_unfinished
    (clean : (Reading.ofSource host.limits.parsing source).diagnostics = [])
    (ends : inOrder (perform rounds host.limits.running)
      (Reading.ofSource host.limits.parsing source).statements
      (startOf host.limits settings source) = .error .unfinished after) :
    Faithful host.limits rounds (host.paint settings) source
      (Reading.ofSource host.limits.parsing source)
      (startOf host.limits settings source) (runScript host rounds files settings name) := by
  have run := (run_script_of_clean rounds settings clean).trans
    (bind_apply_error (runProgram_of_unfinished ends))
  have transcript := runScript_of_error loaded run
  have goesOn : ∀ problem stopped, ¬ StopsWith host.limits.running rounds
      (Reading.ofSource host.limits.parsing source).statements
      (startOf host.limits settings source) problem stopped := by
    intro problem stopped stops
    rcases stops.inOrder with ⟨abort, aborts, finished⟩
    rw [ends] at aborts
    cases aborts
    exact finished rfl
  rw [transcript]
  constructor
  · exact Reading.exists_program _ source
  · exact Or.inr ⟨rfl, clean, after, ends⟩
  · exact ⟨fun impossible => (by cases impossible), fun problem => absurd clean problem⟩
  · exact fun problem => absurd clean problem
  · refine ⟨fun impossible => (by cases impossible), ?_⟩
    rintro ⟨_, problem, stopped, stops⟩
    exact absurd stops (goesOn problem stopped)
  · exact fun problem stopped _ stops => absurd stops (goesOn problem stopped)
  · exact fun _ impossible => (by cases impossible)
  · exact fun _ _ _ impossible => (by cases impossible)

end Cases

/-- A script that has ended comes to the same with more rounds. -/
theorem runScript_lasts {rounds more status : Nat} (enough : rounds ≤ more)
    (loaded : Script.load files (Script.tidy name) = .ok source)
    (ended : (runScript host rounds files settings name).ending = .exit status) :
    runScript host more files settings name = runScript host rounds files settings name := by
  rcases Lasts.session host.limits enough .script source _ (standing_initial settings.debug) with
    ⟨after, unfinished⟩ | same
  · rw [runScript_of_error loaded unfinished] at ended
    cases ended
  · simp only [runScript, withScript, loaded, treat, same]

/-- A script that can be loaded ends with a faithful status, and all that it writes
agrees with it.  Once it has ended, this is so with any larger number of rounds. -/
theorem runScript_faithful (host : Host) (rounds : Nat) (settings : Settings)
    (loaded : Script.load files (Script.tidy name) = .ok source) :
    Faithful host.limits rounds (host.paint settings) source
        (Reading.ofSource host.limits.parsing source)
        (startOf host.limits settings source) (runScript host rounds files settings name) ∧
      ∀ status more, rounds ≤ more →
        (runScript host rounds files settings name).ending = .exit status →
        runScript host more files settings name = runScript host rounds files settings name := by
  refine ⟨?_, fun _ _ enough ended => runScript_lasts enough loaded ended⟩
  by_cases clean : (Reading.ofSource host.limits.parsing source).diagnostics = []
  · rcases concludes_or_unfinished host.limits.running rounds (Reading.areCanonical clean)
      (topLevel_startOf host.limits settings source) with
      ⟨runtime, after, concludes⟩ | ⟨after, ends⟩
    · exact faithful_of_concludes rounds loaded clean concludes
    · exact faithful_of_unfinished rounds loaded clean ends
  · exact faithful_of_problem rounds loaded clean

/-- A terminal that shows colors, and levels for programs that are not nested deeply. -/
def sampleHost : Host where
  limits := .uniform 100
  colored text := "\x1b[1m\x1b[31m" ++ text ++ "\x1b[0m"

/-- A file system in which every file holds `print nil; a;`. -/
def sampleFiles : Script.Files :=
  fun _ => .ok [112, 114, 105, 110, 116, 32, 110, 105, 108, 59, 32, 97, 59]

/-- The sample prints a line, and is stopped by the variable that it has not
declared. -/
theorem runScript_faithful_sample :
    Script.load sampleFiles (Script.tidy "sample") = .ok "print nil; a;".toList ∧
      runScript sampleHost 0 sampleFiles Settings.initial "sample" =
        ⟨"nil\n", "\x1b[1m\x1b[31mUndefined variable 'a'.\n[line 1]\x1b[0m\n", .exit 70⟩ ∧
      Faithful sampleHost.limits 0 sampleHost.colored "print nil; a;".toList
        (Reading.ofSource 100 "print nil; a;".toList)
        (startOf sampleHost.limits Settings.initial "print nil; a;".toList)
        (runScript sampleHost 0 sampleFiles Settings.initial "sample") := by
  have loaded : Script.load sampleFiles (Script.tidy "sample") = .ok "print nil; a;".toList := by
    decide +kernel
  refine ⟨loaded, ?_, (runScript_faithful sampleHost 0 Settings.initial loaded).1⟩
  decide +kernel

end Script

end TreeWalker.CommandLine
