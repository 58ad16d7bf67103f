import Mathlib.Data.List.DropRight
import TreeWalker.Text.Lines

/-!
# The line on which a text ends

Where a text goes on, the line on which its first part ends is made of two pieces:
what the first part has after its last line feed, and what the rest has before its
first one.  So of any part of a text, what it has after its last line feed is seen on
the line on which the part ends.
-/

namespace TreeWalker.Text

/-- What a text has after its last line feed: all of it, if there is none. -/
def afterLastFeed (text : List Char) : List Char :=
  text.rtakeWhile (· ≠ '\n')

/-- What a text has before its first line feed: all of it, if there is none. -/
def beforeFirstFeed (text : List Char) : List Char :=
  text.takeWhile (· ≠ '\n')

@[simp]
theorem afterLastFeed_concat_feed (text : List Char) : afterLastFeed (text ++ ['\n']) = [] :=
  List.rtakeWhile_concat_neg _ _ _ (by simp)

theorem afterLastFeed_concat {c : Char} (other : c ≠ '\n') (text : List Char) :
    afterLastFeed (text ++ [c]) = afterLastFeed text ++ [c] :=
  List.rtakeWhile_concat_pos _ _ _ (by simp [other])

theorem beforeFirstFeed_cons {c : Char} (other : c ≠ '\n') (text : List Char) :
    beforeFirstFeed (c :: text) = c :: beforeFirstFeed text :=
  List.takeWhile_cons_of_pos (by simp [other])

/-- More text in front may only add to what comes after the last line feed. -/
theorem afterLastFeed_suffix (before text : List Char) :
    afterLastFeed text <:+ afterLastFeed (before ++ text) := by
  induction text using List.reverseRecOn with
  | nil => exact List.nil_suffix
  | append_singleton text c inductionHypothesis =>
      rw [← List.append_assoc]
      by_cases feed : c = '\n'
      · simp [feed]
      · obtain ⟨more, whole⟩ := inductionHypothesis
        rw [afterLastFeed_concat feed, afterLastFeed_concat feed, ← whole]
        exact ⟨more, (List.append_assoc _ _ _).symm⟩

/-! ## Lines of joined texts -/

theorem pushFront_append (c : Char) {above : List (List Char)} (nonempty : above ≠ [])
    (below : List (List Char)) : pushFront c (above ++ below) = pushFront c above ++ below := by
  cases above with
  | nil => exact absurd rfl nonempty
  | cons line above => rfl

/-- A line feed between two texts keeps their lines apart. -/
theorem lines_append_feed (first second : List Char) :
    lines (first ++ '\n' :: second) = lines first ++ lines second := by
  induction first with
  | nil => rfl
  | cons c first inductionHypothesis =>
      rw [List.cons_append, lines_cons, lines_cons, inductionHypothesis]
      split
      · rfl
      · exact pushFront_append c (lines_ne_nil first) _

theorem head?_lines (text : List Char) : (lines text).head? = some (beforeFirstFeed text) := by
  induction text with
  | nil => rfl
  | cons c text inductionHypothesis =>
      rw [lines_cons]
      by_cases feed : c = '\n'
      · rw [if_pos feed, feed]
        rfl
      · rw [if_neg feed, beforeFirstFeed_cons feed]
        obtain ⟨below, split⟩ := List.head?_eq_some_iff.mp inductionHypothesis
        rw [split]
        rfl

/-- The line on which the first of two joined texts ends. -/
theorem getElem?_lines_append (first second : List Char) :
    (lines (first ++ second))[first.count '\n']? =
      some (afterLastFeed first ++ beforeFirstFeed second) := by
  induction first using List.reverseRecOn generalizing second with
  | nil => exact List.head?_eq_getElem? ▸ head?_lines second
  | append_singleton first c inductionHypothesis =>
      rw [List.append_assoc, List.singleton_append, List.count_append]
      by_cases feed : c = '\n'
      · subst feed
        rw [lines_append_feed, afterLastFeed_concat_feed, List.nil_append,
          List.count_singleton_self, ← length_lines, List.getElem?_append_right (Nat.le_refl _),
          Nat.sub_self, ← List.head?_eq_getElem?, head?_lines]
      · -- The character that ends the first text may as well begin the second.
        rw [List.count_singleton, if_neg (by simpa using feed), Nat.add_zero, inductionHypothesis,
          afterLastFeed_concat feed, beforeFirstFeed_cons feed, List.append_assoc,
          List.singleton_append]

theorem line?_append (first second : List Char) :
    line? (first ++ second) (1 + first.count '\n' : Nat) =
      some (afterLastFeed first ++ beforeFirstFeed second) := by
  rw [line?, if_pos (by omega), ← getElem?_lines_append]
  congr 1
  omega

end TreeWalker.Text
