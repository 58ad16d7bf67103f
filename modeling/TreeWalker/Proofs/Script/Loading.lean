import TreeWalker.Proofs.Script.Following
import TreeWalker.Proofs.Text.Utf8
import TreeWalker.Script.Loading

/-!
# What can be loaded

A script is loaded exactly if there is a file with its path whose bytes are the encoding
of a text.  In a directory, what hinders this is said of the path itself: of its
characters, of what stands on the way that its names lead, and of the bytes at the end of
it.
-/

namespace TreeWalker.Script

/-- Bytes that are the encoding of a text. -/
def IsUtf8 (bytes : Bytes) : Prop :=
  ∃ characters : List Char, bytes = characters.flatMap String.utf8EncodeChar

section Files

variable {files : Files} {path : String} {source : List Char} {bytes : Bytes}

theorem isUtf8_iff : IsUtf8 bytes ↔ ∃ characters, Text.decodeUtf8 bytes = .ok characters := by
  simp only [IsUtf8, Text.decodeUtf8_eq_ok_iff]

/-- Decoding fails on bytes that are not the encoding of a text. -/
theorem not_isUtf8_iff : ¬ IsUtf8 bytes ↔ ∃ fault, Text.decodeUtf8 bytes = .error fault := by
  rw [isUtf8_iff]
  cases Text.decodeUtf8 bytes with
  | error fault => simp
  | ok characters => simp

/-- What is loaded are the characters of a file, with the ends of its lines made alike. -/
theorem load_eq_ok_iff :
    load files path = .ok source ↔ ∃ characters,
      files path = .ok (characters.flatMap String.utf8EncodeChar) ∧
        source = Text.normalizeEnds characters := by
  constructor
  · intro loaded
    rw [load] at loaded
    split at loaded
    · cases loaded
    · next bytes opened =>
        rw [text] at loaded
        cases decoded : Text.decodeUtf8 bytes with
        | error fault =>
            rw [decoded] at loaded
            cases loaded
        | ok characters =>
            rw [decoded] at loaded
            cases loaded
            refine ⟨characters, ?_, rfl⟩
            rw [opened, Text.decodeUtf8_eq_ok_iff.mp decoded]
  · rintro ⟨characters, opened, rfl⟩
    rw [load, opened]
    simp only [text, Text.decodeUtf8_eq_ok_iff.mpr rfl]
    rfl

/-- Loading fails if the file cannot be opened, or if its bytes cannot be decoded. -/
theorem load_eq_error_iff {fault : LoadFault} :
    load files path = .error fault ↔
      (∃ unopened, files path = .error unopened ∧ fault = .access path unopened) ∨
        ∃ bytes malformed, files path = .ok bytes ∧ Text.decodeUtf8 bytes = .error malformed ∧
          fault = .encoding malformed := by
  rw [load]
  cases files path with
  | error unopened => simp [eq_comm]
  | ok bytes =>
      cases decoded : Text.decodeUtf8 bytes with
      | error malformed => simp [text, decoded, Except.map, Except.mapError, eq_comm]
      | ok characters => simp [text, decoded, Except.map, Except.mapError]

end Files

/-! ## Directories -/

/-- What hinders a script in a directory from being loaded: its name holds a null
character, its path leads to nothing that is known, to a directory, through a file, or to
a file that may not be read or is not in UTF-8. -/
inductive Directory.Hinders (directory : Directory) (name : String) : LoadFault → Prop where
  | nullCharacter (held : '\x00' ∈ name.toList) :
      Hinders directory name (.access (tidy name) .nullCharacter)
  | missing {before after : List Name} {goal : Place} (proper : '\x00' ∉ name.toList)
      (split : names (tidy name) = before ++ after)
      (leads : directory.Leads (start (tidy name)) before goal)
      (lost : directory.standing goal = .nothing ∨
        directory.standing goal = .directory ∧ ∃ part ∈ after.head?, goal.toward? part = none) :
      Hinders directory name (.access (tidy name) .missing)
  | denied {goal : Place} (proper : '\x00' ∉ name.toList)
      (leads : directory.Leads (start (tidy name)) (names (tidy name)) goal)
      (stands : directory.standing goal = .file none) :
      Hinders directory name (.access (tidy name) .denied)
  | isDirectory {goal : Place} (proper : '\x00' ∉ name.toList)
      (leads : directory.Leads (start (tidy name)) (names (tidy name)) goal)
      (stands : directory.standing goal = .directory) :
      Hinders directory name (.access (tidy name) .isDirectory)
  | notDirectory {before after : List Name} {part : Name} {goal : Place}
      {bytes : Option Bytes} (proper : '\x00' ∉ name.toList)
      (split : names (tidy name) = before ++ part :: after)
      (leads : directory.Leads (start (tidy name)) before goal)
      (stands : directory.standing goal = .file bytes) :
      Hinders directory name (.access (tidy name) .notDirectory)
  | encoding {goal : Place} {bytes : Bytes} {malformed : Text.Utf8Fault}
      (proper : '\x00' ∉ name.toList)
      (leads : directory.Leads (start (tidy name)) (names (tidy name)) goal)
      (stands : directory.standing goal = .file (some bytes)) (foreign : ¬ IsUtf8 bytes)
      (told : Text.decodeUtf8 bytes = .error malformed) :
      Hinders directory name (.encoding malformed)

namespace Directory

variable {directory : Directory} {name : String}

/-- A path that holds no null character comes to what stands where it leads. -/
theorem access_tidy_eq_iff {result : Except AccessFault Bytes} :
    directory.access (tidy name) = result ↔
      '\x00' ∈ name.toList ∧ result = .error .nullCharacter ∨
        '\x00' ∉ name.toList ∧ ∃ before after goal, names (tidy name) = before ++ after ∧
          directory.Leads (start (tidy name)) before goal ∧ directory.Comes goal after result := by
  rw [access_tidy]
  split
  · next held => simp [held, eq_comm]
  · next proper => simp [proper, follow_eq_iff]

/-- A script in a directory fails to load exactly for what hinders it. -/
theorem load_eq_error_iff_hinders {fault : LoadFault} :
    load directory.access (tidy name) = .error fault ↔ directory.Hinders name fault := by
  rw [load_eq_error_iff]
  constructor
  · rintro (⟨unopened, opened, rfl⟩ | ⟨bytes, malformed, opened, told, rfl⟩)
    · rcases access_tidy_eq_iff.mp opened with
        ⟨held, ⟨⟩⟩ | ⟨proper, before, after, goal, split, leads, comes⟩
      · exact .nullCharacter held
      · cases comes with
        | denied stands =>
            rw [List.append_nil] at split
            exact .denied proper (split ▸ leads) stands
        | isDirectory stands =>
            rw [List.append_nil] at split
            exact .isDirectory proper (split ▸ leads) stands
        | notDirectory stands => exact .notDirectory proper split leads stands
        | nothing stands => exact .missing proper split leads (.inl stands)
        | unknown stands unknown =>
            exact .missing proper split leads (.inr ⟨stands, _, rfl, unknown⟩)
    · rcases access_tidy_eq_iff.mp opened with
        ⟨_, ⟨⟩⟩ | ⟨proper, before, after, goal, split, leads, comes⟩
      cases comes with
      | file stands =>
          rw [List.append_nil] at split
          exact .encoding proper (split ▸ leads) stands (not_isUtf8_iff.mpr ⟨_, told⟩) told
  · have opened {before after : List Name} {goal : Place} {result : Except AccessFault Bytes}
        (proper : '\x00' ∉ name.toList) (split : names (tidy name) = before ++ after)
        (leads : directory.Leads (start (tidy name)) before goal)
        (comes : directory.Comes goal after result) : directory.access (tidy name) = result :=
      access_tidy_eq_iff.mpr (.inr ⟨proper, before, after, goal, split, leads, comes⟩)
    intro hinders
    cases hinders with
    | nullCharacter held => exact .inl ⟨_, access_tidy_eq_iff.mpr (.inl ⟨held, rfl⟩), rfl⟩
    | @missing before after goal proper split leads lost =>
        refine .inl ⟨.missing, opened proper split leads ?_, rfl⟩
        rcases lost with stands | ⟨stands, part, first, unknown⟩
        · exact .nothing stands
        · obtain ⟨rest, rfl⟩ := List.head?_eq_some_iff.mp first
          exact .unknown stands unknown
    | denied proper leads stands =>
        exact .inl ⟨_, opened proper (List.append_nil _).symm leads (.denied stands), rfl⟩
    | isDirectory proper leads stands =>
        exact .inl ⟨_, opened proper (List.append_nil _).symm leads (.isDirectory stands), rfl⟩
    | notDirectory proper split leads stands =>
        exact .inl ⟨_, opened proper split leads (.notDirectory stands), rfl⟩
    | encoding proper leads stands foreign told =>
        exact .inr ⟨_, _, opened proper (List.append_nil _).symm leads (.file stands), told, rfl⟩

end Directory

end TreeWalker.Script
