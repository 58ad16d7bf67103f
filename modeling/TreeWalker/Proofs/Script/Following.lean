import Mathlib.Data.List.Basic
import TreeWalker.Script.Directory

/-!
# Where paths lead

A path is followed name by name, and goes on from directories only.  It is followed to
the end, up to a file that is not the last on the way, or up to a place where nothing
is known to stand, and what stands there decides what comes of opening the path.
Without the names that add nothing, a path still holds the same characters, apart from
slashes and dots.
-/

namespace TreeWalker.Script

/-- The place that a name leads to from the directory at a place, if it is known. -/
def Place.toward? (place : Place) (name : Name) : Option Place :=
  if staysPut name then some place
  else if name = ['.', '.'] then some place.around
  else place.entry? name

namespace Directory

/-- Names lead from a place to another one, through directories only. -/
inductive Leads (directory : Directory) : Place → List Name → Place → Prop where
  | here {place : Place} : Leads directory place [] place
  | onward {place next goal : Place} {name : Name} {rest : List Name}
      (stands : directory.standing place = .directory) (toward : place.toward? name = some next)
      (leads : Leads directory next rest goal) : Leads directory place (name :: rest) goal

/-- What comes of opening the path with the names left, at the place up to which it could
be followed. -/
inductive Comes (directory : Directory) (place : Place) :
    List Name → Except AccessFault Bytes → Prop where
  | file {bytes : Bytes} (stands : directory.standing place = .file (some bytes)) :
      Comes directory place [] (.ok bytes)
  | denied (stands : directory.standing place = .file none) :
      Comes directory place [] (.error .denied)
  | isDirectory (stands : directory.standing place = .directory) :
      Comes directory place [] (.error .isDirectory)
  | notDirectory {bytes : Option Bytes} {name : Name} {rest : List Name}
      (stands : directory.standing place = .file bytes) :
      Comes directory place (name :: rest) (.error .notDirectory)
  | nothing {rest : List Name} (stands : directory.standing place = .nothing) :
      Comes directory place rest (.error .missing)
  | unknown {name : Name} {rest : List Name} (stands : directory.standing place = .directory)
      (unknown : place.toward? name = none) : Comes directory place (name :: rest) (.error .missing)

variable {directory : Directory} {place goal : Place} {name : Name} {rest : List Name}
  {result : Except AccessFault Bytes}

/-- A name is followed from a directory. -/
theorem follow_cons (stands : directory.standing place = .directory) :
    directory.follow place (name :: rest) =
      match place.toward? name with
      | some next => directory.follow next rest
      | none => .error .missing := by
  simp only [follow, stands, Place.toward?]
  split_ifs <;> rfl

theorem Comes.follow_eq (comes : directory.Comes goal rest result) :
    directory.follow goal rest = result := by
  cases comes with
  | file stands | denied stands | isDirectory stands => simp only [follow, stands]
  | notDirectory stands => simp only [follow, stands]
  | nothing stands => cases rest <;> simp only [follow, stands]
  | unknown stands unknown => rw [follow_cons stands, unknown]

/-- What comes of a path comes of the names that are left. -/
theorem Leads.follow_append {before : List Name} (leads : directory.Leads place before goal)
    (after : List Name) :
    directory.follow place (before ++ after) = directory.follow goal after := by
  induction leads with
  | here => rfl
  | onward stands toward _ inductionHypothesis =>
      rw [List.cons_append, follow_cons stands, toward]
      exact inductionHypothesis

theorem exists_comes (directory : Directory) (place : Place) (names : List Name) :
    ∃ before after goal, names = before ++ after ∧ directory.Leads place before goal ∧
      directory.Comes goal after (directory.follow place names) := by
  -- A name that leads on is passed to the place it leads to, and any other ends the way.
  induction names generalizing place with
  | nil =>
      refine ⟨[], [], place, rfl, .here, ?_⟩
      rw [follow]
      split
      · next stands => exact .file stands
      · next stands => exact .denied stands
      · next stands => exact .isDirectory stands
      · next stands => exact .nothing stands
  | cons name rest inductionHypothesis =>
      cases stands : directory.standing place with
      | file bytes =>
          refine ⟨[], name :: rest, place, rfl, .here, ?_⟩
          simp only [follow, stands]
          exact .notDirectory stands
      | nothing =>
          refine ⟨[], name :: rest, place, rfl, .here, ?_⟩
          simp only [follow, stands]
          exact .nothing stands
      | directory =>
          rw [follow_cons stands]
          cases toward : place.toward? name with
          | none => exact ⟨[], name :: rest, place, rfl, .here, .unknown stands toward⟩
          | some next =>
              obtain ⟨before, after, goal, rfl, leads, comes⟩ := inductionHypothesis next
              exact ⟨name :: before, after, goal, rfl, .onward stands toward leads, comes⟩

/-- Opening a path gives what comes of it where it cannot be followed any further. -/
theorem follow_eq_iff {names : List Name} :
    directory.follow place names = result ↔
      ∃ before after goal, names = before ++ after ∧ directory.Leads place before goal ∧
        directory.Comes goal after result := by
  constructor
  · rintro rfl
    exact exists_comes directory place names
  · rintro ⟨before, after, goal, rfl, leads, comes⟩
    rw [leads.follow_append, comes.follow_eq]

end Directory

/-! ## Tidy paths -/

section Tidy

variable {c : Char}

theorem mem_intercalate {separator : Char} (other : c ≠ separator) (texts : List (List Char)) :
    c ∈ List.intercalate [separator] texts ↔ ∃ text ∈ texts, c ∈ text := by
  induction texts with
  | nil => simp only [List.intercalate_nil, List.not_mem_nil, false_and, exists_false]
  | cons text texts inductionHypothesis =>
      cases texts with
      | nil => simp only [List.intercalate_singleton, List.mem_singleton, exists_eq_left]
      | cons next texts =>
          rw [List.intercalate_cons_cons, List.mem_append, List.mem_append, List.mem_singleton,
            inductionHypothesis, or_iff_left other]
          simp only [List.mem_cons, exists_eq_or_imp]

/-- Every character of a path but its slashes stands in one of its names. -/
theorem mem_iff_exists_name (noSlash : c ≠ '/') (path : String) :
    c ∈ path.toList ↔ ∃ name ∈ names path, c ∈ name := by
  rw [← mem_intercalate noSlash, names, List.intercalate_splitOn]

theorem not_mem_root (noSlash : c ≠ '/') (path : List Char) : c ∉ root path := by
  unfold root
  split <;> simp [noSlash]

/-- What stays put has no characters but dots. -/
theorem staysPut_of_mem (noDot : c ≠ '.') {name : Name} (member : c ∈ name) :
    staysPut name = false := by
  rw [Bool.eq_false_iff, staysPut, Ne, Bool.or_eq_true, beq_iff_eq, beq_iff_eq]
  rintro (rfl | rfl)
  · exact List.not_mem_nil member
  · exact noDot (List.mem_singleton.mp member)

/-- The root of a path and its names, without those that add nothing. -/
def tidied (path : String) : List Char :=
  root path.toList ++ List.intercalate ['/'] ((names path).filter fun name => !staysPut name)

theorem toList_tidy (path : String) :
    (tidy path).toList = if (tidied path).isEmpty then ['.'] else tidied path := by
  change (if (tidied path).isEmpty then "." else String.ofList (tidied path)).toList = _
  split
  · rfl
  · exact String.toList_ofList

theorem mem_tidied (noSlash : c ≠ '/') (noDot : c ≠ '.') (path : String) :
    c ∈ tidied path ↔ c ∈ path.toList := by
  rw [mem_iff_exists_name noSlash path, tidied, List.mem_append,
    or_iff_right (not_mem_root noSlash _), mem_intercalate noSlash]
  constructor
  · rintro ⟨name, member, held⟩
    exact ⟨name, List.mem_of_mem_filter member, held⟩
  · rintro ⟨name, member, held⟩
    exact ⟨name, List.mem_filter.mpr ⟨member, by rw [staysPut_of_mem noDot held]; rfl⟩, held⟩

/-- Tidying a path drops none of its characters but slashes and dots. -/
theorem mem_tidy (noSlash : c ≠ '/') (noDot : c ≠ '.') (path : String) :
    c ∈ (tidy path).toList ↔ c ∈ path.toList := by
  rw [← mem_tidied noSlash noDot path, toList_tidy]
  split
  · next empty => simp [List.isEmpty_iff.mp empty, noDot]
  · rfl

theorem tidy_isEmpty (path : String) : (tidy path).isEmpty = false := by
  have nonempty : (tidy path).toList ≠ [] := by
    rw [toList_tidy]
    split
    · exact List.cons_ne_nil _ _
    · next nonempty => exact fun empty => nonempty (List.isEmpty_iff.mpr empty)
  simpa [String.isEmpty_iff] using nonempty

namespace Directory

/-- A path without what adds nothing to it cannot be opened if it holds a null character,
and is followed otherwise. -/
theorem access_tidy (directory : Directory) (path : String) :
    directory.access (tidy path) =
      if '\x00' ∈ path.toList then .error .nullCharacter
      else directory.follow (start (tidy path)) (names (tidy path)) := by
  have same := mem_tidy (c := '\x00') (by decide) (by decide) path
  simp only [access, tidy_isEmpty, List.contains_iff_mem, same, Bool.false_eq_true, if_false]

end Directory

end Tidy

end TreeWalker.Script
