import TreeWalker.CommandLine.Scripts
import TreeWalker.Proofs.Script.Loading

/-!
# Scripts that are not read

Running a script and showing it answer alike if it cannot be loaded, since nothing is done
then with a text.  A missing file, a file that may not be read and a file that is no text
come to status 66, with a hint, and no script that is loaded does.  A script that cannot be
opened for any other reason, such as a directory, comes to no status at all: the failure
escapes.
-/

namespace TreeWalker.CommandLine

variable {host : Host} {files : Script.Files} {name : String}

/-- An ending that tells of a script that could not be read. -/
def TellsUnread (ending : Ending) : Prop :=
  ending = .exit 66 ∨ ∃ path fault, ending = .failure (.access path fault)

/-! ## Texts -/

section Texts

theorem status_ne_unreadable (outcome : Outcome) : outcome.verdict.status ≠ 66 := by
  unfold Outcome.verdict
  split
  · decide
  · split <;> decide

/-- What becomes of a text tells of a script that could not be read only if what is shown
of it does. -/
theorem treat_ending {rounds : Nat} {settings : Settings} {treatment : Treatment}
    {shown : Outcome → Transcript} (own : ∀ outcome, ¬ TellsUnread (shown outcome).ending)
    (source : List Char) :
    ¬ TellsUnread (treat host rounds settings treatment source shown).ending := by
  unfold treat
  split
  · rintro (⟨⟨⟩⟩ | ⟨_, _, ⟨⟩⟩)
  · next outcome machine _ =>
      dsimp only
      split
      · exact own outcome
      · rintro (same | ⟨_, _, ⟨⟩⟩)
        exact status_ne_unreadable outcome (Ending.exit.inj same)

theorem showStatements_ending (limits : Limits) (rpn : Bool) (statements : List Node) :
    ¬ TellsUnread (showStatements limits rpn statements).ending := by
  induction statements with
  | nil => rintro (⟨⟨⟩⟩ | ⟨_, _, ⟨⟩⟩)
  | cons statement statements inductionHypothesis =>
      rw [showStatements]
      split
      · exact inductionHypothesis
      · rintro (⟨⟨⟩⟩ | ⟨_, _, ⟨⟩⟩)

end Texts

/-! ## Scripts -/

/-- What a mode answers for a script, by what the files have for its path. -/
structure Answers (files : Script.Files) (name : String) (transcript : Transcript) : Prop where
  /-- Status 66 tells that there is no such file, that it may not be read, or that its bytes
  are not in UTF-8. -/
  refused : transcript.ending = .exit 66 ↔ files (Script.tidy name) = .error .missing ∨
    files (Script.tidy name) = .error .denied ∨
    ∃ bytes, files (Script.tidy name) = .ok bytes ∧ ¬ Script.IsUtf8 bytes
  /-- Whatever else keeps the file from being opened escapes. -/
  escapes : ∀ path fault, transcript.ending = .failure (.access path fault) ↔
    path = Script.tidy name ∧ fault ≠ .missing ∧ fault ≠ .denied ∧
      files (Script.tidy name) = .error fault
  /-- A script that is not loaded is told of, and nothing else is done, whatever would be
  done with its text. -/
  untouched : ∀ fault, Script.load files (Script.tidy name) = .error fault →
    transcript = loadFailure name fault ∧ ∀ run, withScript files name run = transcript

theorem withScript_of_ok {source : List Char} {run : List Char → Transcript}
    (loaded : Script.load files (Script.tidy name) = .ok source) :
    withScript files name run = run source := by
  rw [withScript, loaded]

theorem withScript_of_error {fault : Script.LoadFault} {run : List Char → Transcript}
    (unloaded : Script.load files (Script.tidy name) = .error fault) :
    withScript files name run = loadFailure name fault := by
  rw [withScript, unloaded]

/-- A script cannot be loaded, and neither running it nor showing it comes to a status. -/
def Escapes (files : Script.Files) (name : String) : Prop :=
  (∃ fault, Script.load files (Script.tidy name) = .error fault) ∧
    ∀ host rounds settings status,
      (runScript host rounds files settings name).ending ≠ .exit status ∧
        (showScript host rounds files settings name).ending ≠ .exit status

/-- A script that is there and may be read, but cannot be opened, comes to no status. -/
theorem escapes_of_access {path : String} {fault : Script.AccessFault} (there : fault ≠ .missing)
    (permitted : fault ≠ .denied)
    (unloaded : Script.load files (Script.tidy name) = .error (.access path fault)) :
    Escapes files name := by
  have escapes : ∀ run status, (withScript files name run).ending ≠ .exit status := by
    intro run status
    rw [withScript_of_error unloaded]
    cases fault with
    | missing => exact absurd rfl there
    | denied => exact absurd rfl permitted
    | isDirectory | notDirectory | nullCharacter => rintro ⟨⟩
  exact ⟨⟨_, unloaded⟩, fun _ _ _ status => ⟨escapes _ status, escapes _ status⟩⟩

theorem answers_of_ok {run : List Char → Transcript} {source : List Char}
    (loaded : Script.load files (Script.tidy name) = .ok source)
    (own : ¬ TellsUnread (run source).ending) : Answers files name (withScript files name run) := by
  obtain ⟨characters, opened, _⟩ := Script.load_eq_ok_iff.mp loaded
  rw [withScript_of_ok loaded]
  -- The file was opened and is a text, so nothing that tells otherwise can hold.
  constructor
  · constructor
    · exact fun exits => absurd (.inl exits) own
    · rintro (missing | denied | ⟨bytes, opened', foreign⟩)
      · rw [opened] at missing
        cases missing
      · rw [opened] at denied
        cases denied
      · rw [opened] at opened'
        exact absurd ⟨characters, (Except.ok.inj opened').symm⟩ foreign
  · intro path fault
    constructor
    · exact fun fails => absurd (.inr ⟨path, fault, fails⟩) own
    · rintro ⟨_, _, _, unopened⟩
      rw [opened] at unopened
      cases unopened
  · intro fault unloaded
    rw [loaded] at unloaded
    cases unloaded

theorem answers_of_error {run : List Char → Transcript} {fault : Script.LoadFault}
    (unloaded : Script.load files (Script.tidy name) = .error fault) :
    Answers files name (withScript files name run) := by
  have untouched : ∀ fault', Script.load files (Script.tidy name) = .error fault' →
      withScript files name run = loadFailure name fault' ∧
        ∀ run', withScript files name run' = withScript files name run := by
    intro fault' unloaded'
    refine ⟨withScript_of_error unloaded', fun run' => ?_⟩
    rw [withScript_of_error unloaded', withScript_of_error unloaded']
  rw [withScript_of_error unloaded] at untouched ⊢
  rcases Script.load_eq_error_iff.mp unloaded with
    ⟨unopened, opened, rfl⟩ | ⟨bytes, malformed, opened, told, rfl⟩
  · refine ⟨?_, ?_, untouched⟩
    · cases unopened <;> simp [opened, loadFailure, unreadable, Verdict.status]
    · intro path fault
      cases unopened <;> cases fault <;> simp [opened, loadFailure, unreadable, eq_comm]
  · have foreign := Script.not_isUtf8_iff.mpr ⟨malformed, told⟩
    refine ⟨?_, ?_, untouched⟩
    · simpa [opened, loadFailure, unreadable, Verdict.status] using foreign
    · simp [opened, loadFailure, unreadable]

/-- Every way to treat a text makes the same of a script that is not loaded. -/
theorem answers_withScript {run : List Char → Transcript}
    (own : ∀ source, ¬ TellsUnread (run source).ending) :
    Answers files name (withScript files name run) := by
  cases loaded : Script.load files (Script.tidy name) with
  | ok source => exact answers_of_ok loaded (own source)
  | error fault => exact answers_of_error loaded

/-- Running a script and showing it come to status 66 exactly for a file that is missing, may
not be read or is not in UTF-8; what else keeps a script from being opened escapes, and nothing
is done with a script that is not loaded.  In a directory, what keeps it from being loaded
is told by its path. -/
theorem unreadable_scripts_answered (name : String) :
    (∀ host files rounds settings,
      Answers files name (runScript host rounds files settings name) ∧
        Answers files name (showScript host rounds files settings name)) ∧
    ∀ (directory : Script.Directory) fault,
      Script.load directory.access (Script.tidy name) = .error fault ↔
        directory.Hinders name fault := by
  refine ⟨fun host files rounds settings => ⟨?_, ?_⟩, fun directory fault => ?_⟩
  · apply answers_withScript
    apply treat_ending
    rintro _ (⟨⟨⟩⟩ | ⟨_, _, ⟨⟩⟩)
  · apply answers_withScript
    apply treat_ending
    exact fun outcome => showStatements_ending host.limits settings.rpn outcome.statements
  · exact Script.Directory.load_eq_error_iff_hinders

/-- A directory that holds one file. -/
def loneFile : Script.Directory :=
  .ofFiles [("s.lox", [])]

/-- Neither running nor showing comes to a status for a directory, for a path through a
file or for a null character in the name. -/
theorem unreadable_scripts_escape :
    Escapes loneFile.access "." ∧ Escapes loneFile.access "s.lox/t" ∧
      Escapes loneFile.access "s\x00" := by
  refine ⟨?directory, ?throughFile, ?nullCharacter⟩
  case directory =>
    have unloaded : Script.load loneFile.access (Script.tidy ".") =
        .error (.access "." .isDirectory) := by decide +kernel
    exact escapes_of_access (by decide) (by decide) unloaded
  case throughFile =>
    have unloaded : Script.load loneFile.access (Script.tidy "s.lox/t") =
        .error (.access "s.lox/t" .notDirectory) := by decide +kernel
    exact escapes_of_access (by decide) (by decide) unloaded
  case nullCharacter =>
    have unloaded : Script.load loneFile.access (Script.tidy "s\x00") =
        .error (.access "s\x00" .nullCharacter) := by decide +kernel
    exact escapes_of_access (by decide) (by decide) unloaded

end TreeWalker.CommandLine
