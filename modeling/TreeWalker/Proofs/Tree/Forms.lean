import Mathlib.Data.List.Basic

/-!
# Forms and lines

Expressions are shown as forms: words, and forms in parentheses with a word in front.
Statements are shown as lines of forms, each indented by some steps.  Where a word may
contain no blank, no parenthesis and no line feed, a text is that of one list of lines
at most, whatever the words are.

A form in parentheses says by its text how many operands it has, so words in front
need not differ between forms with one operand and with two.
-/

namespace TreeWalker

/-- A word, or a word in front of one or two forms. -/
inductive Form where
  | word (letters : List Char)
  | one (head : List Char) (operand : Form)
  | two (head : List Char) (left right : Form)
deriving DecidableEq

/-- A character that separates forms. -/
def separates (c : Char) : Bool :=
  c == ' ' || c == '(' || c == ')' || c == '\n'

/-- Text that separates nothing. -/
def IsSolid (letters : List Char) : Prop :=
  ∀ c ∈ letters, separates c = false

instance (letters : List Char) : Decidable (IsSolid letters) :=
  List.decidableBAll (fun c => separates c = false) letters

/-- What comes after a word: nothing, or a separator. -/
def Breaks (rest : List Char) : Prop :=
  ∀ c ∈ rest.head?, separates c = true

/-- What comes after a form: nothing, or a separator that opens no form. -/
def Ends (rest : List Char) : Prop :=
  Breaks rest ∧ '(' ∉ rest.head?

theorem IsSolid.word_injective {letters letters' rest rest' : List Char} (solid : IsSolid letters)
    (solid' : IsSolid letters') (breaks : Breaks rest) (breaks' : Breaks rest')
    (same : letters ++ rest = letters' ++ rest') : letters = letters' ∧ rest = rest' := by
  induction letters generalizing letters' with
  | nil =>
      cases letters' with
      | nil => exact ⟨rfl, same⟩
      | cons c letters' =>
          rw [List.nil_append] at same
          have separator := breaks c (by rw [same]; rfl)
          rw [solid' c List.mem_cons_self] at separator
          cases separator
  | cons c letters inductionHypothesis =>
      cases letters' with
      | nil =>
          rw [List.nil_append] at same
          have separator := breaks' c (by rw [← same]; rfl)
          rw [solid c List.mem_cons_self] at separator
          cases separator
      | cons c' letters' =>
          obtain ⟨rfl, others⟩ := List.cons.inj same
          obtain ⟨rfl, rest⟩ := inductionHypothesis (List.forall_mem_cons.mp solid).2
            (List.forall_mem_cons.mp solid').2 others
          exact ⟨rfl, rest⟩

namespace Form

/-- The text of a form. -/
def text : Form → List Char
  | word letters => letters
  | one head operand => '(' :: (head ++ ' ' :: (operand.text ++ [')']))
  | two head left right => '(' :: (head ++ ' ' :: (left.text ++ ' ' :: (right.text ++ [')'])))

/-- All words of a form are solid. -/
def IsLegible : Form → Prop
  | word letters => IsSolid letters
  | one head operand => IsSolid head ∧ operand.IsLegible
  | two head left right => IsSolid head ∧ left.IsLegible ∧ right.IsLegible

/-- No form begins with the text of another one, but for what comes after it. -/
theorem text_injective {form form' : Form} {rest rest' : List Char} (legible : form.IsLegible)
    (legible' : form'.IsLegible) (ends : Ends rest) (ends' : Ends rest')
    (same : form.text ++ rest = form'.text ++ rest') : form = form' ∧ rest = rest' := by
  have blank (rest : List Char) : Ends (' ' :: rest) := ⟨by rintro _ ⟨⟩; rfl, nofun⟩
  have closing (rest : List Char) : Ends (')' :: rest) := ⟨by rintro _ ⟨⟩; rfl, nofun⟩
  -- A word does not begin with a parenthesis, and what follows a word does not either.
  have noWord {letters rest tail : List Char} (solid : IsSolid letters) (ends : Ends rest)
      (same : letters ++ rest = '(' :: tail) : False := by
    cases letters with
    | nil => exact ends.2 (by rw [show rest = '(' :: tail from same]; rfl)
    | cons c letters =>
        obtain ⟨rfl, -⟩ := List.cons.inj same
        exact Bool.noConfusion (solid '(' List.mem_cons_self)
  induction form generalizing form' rest rest' with
  | word letters =>
      cases form' with
      | word letters' =>
          obtain ⟨rfl, rfl⟩ := legible.word_injective legible' ends.1 ends'.1 same
          exact ⟨rfl, rfl⟩
      | one head' operand' => exact (noWord legible ends same).elim
      | two head' left' right' => exact (noWord legible ends same).elim
  | one head operand inductionHypothesis =>
      cases form' with
      | word letters' => exact (noWord legible' ends' same.symm).elim
      | one head' operand' =>
          simp only [text, List.cons_append, List.append_assoc, List.cons.injEq, true_and] at same
          obtain ⟨rfl, onward⟩ :=
            legible.1.word_injective legible'.1 (blank _).1 (blank _).1 same
          obtain ⟨rfl, tail⟩ := inductionHypothesis legible.2 legible'.2 (closing _) (closing _)
            (List.cons.inj onward).2
          exact ⟨rfl, by simpa using tail⟩
      | two head' left' right' =>
          simp only [text, List.cons_append, List.append_assoc, List.cons.injEq, true_and] at same
          obtain ⟨rfl, onward⟩ :=
            legible.1.word_injective legible'.1 (blank _).1 (blank _).1 same
          obtain ⟨-, tail⟩ := inductionHypothesis legible.2 legible'.2.1 (closing _) (blank _)
            (List.cons.inj onward).2
          exact absurd tail (by simp)
  | two head left right leftHypothesis rightHypothesis =>
      cases form' with
      | word letters' => exact (noWord legible' ends' same.symm).elim
      | one head' operand' =>
          simp only [text, List.cons_append, List.append_assoc, List.cons.injEq, true_and] at same
          obtain ⟨rfl, onward⟩ :=
            legible.1.word_injective legible'.1 (blank _).1 (blank _).1 same
          obtain ⟨-, tail⟩ := leftHypothesis legible.2.1 legible'.2 (blank _) (closing _)
            (List.cons.inj onward).2
          exact absurd tail (by simp)
      | two head' left' right' =>
          simp only [text, List.cons_append, List.append_assoc, List.cons.injEq, true_and] at same
          obtain ⟨rfl, onward⟩ :=
            legible.1.word_injective legible'.1 (blank _).1 (blank _).1 same
          obtain ⟨rfl, between⟩ := leftHypothesis legible.2.1 legible'.2.1 (blank _) (blank _)
            (List.cons.inj onward).2
          obtain ⟨rfl, tail⟩ := rightHypothesis legible.2.2 legible'.2.2 (closing _) (closing _)
            (List.cons.inj between).2
          exact ⟨rfl, by simpa using tail⟩

end Form

/-! ## Lines -/

/-- A line: how many steps it is indented by, a word in front, and the forms after it. -/
structure Line where
  indent : Nat
  keyword : List Char
  forms : List Form
deriving DecidableEq

/-- Forms with a blank before each of them. -/
def spacedForms (forms : List Form) : List Char :=
  forms.flatMap fun form => ' ' :: form.text

namespace Line

/-- The text of a line. -/
def text (line : Line) : List Char :=
  List.replicate (2 * line.indent) ' ' ++ (line.keyword ++ (spacedForms line.forms ++ ['\n']))

/-- All words of a line are solid, and there is one in front. -/
structure IsLegible (line : Line) : Prop where
  begins : line.keyword ≠ []
  solid : IsSolid line.keyword
  forms : ∀ form ∈ line.forms, form.IsLegible

end Line

/-- After a form in a line there is a blank or the end of the line. -/
theorem ends_spacedForms (forms : List Form) (rest : List Char) :
    Ends (spacedForms forms ++ '\n' :: rest) := by
  cases forms with
  | nil => exact ⟨by rintro _ ⟨⟩; rfl, nofun⟩
  | cons form forms => exact ⟨by rintro _ ⟨⟩; rfl, nofun⟩

theorem spacedForms_injective {forms forms' : List Form} {rest rest' : List Char}
    (legible : ∀ form ∈ forms, form.IsLegible) (legible' : ∀ form ∈ forms', form.IsLegible)
    (same : spacedForms forms ++ '\n' :: rest = spacedForms forms' ++ '\n' :: rest') :
    forms = forms' ∧ rest = rest' := by
  induction forms generalizing forms' with
  | nil =>
      cases forms' with
      | nil => exact ⟨rfl, (List.cons.inj same).2⟩
      | cons form' forms' => exact absurd (List.cons.inj same).1 (by decide)
  | cons form forms inductionHypothesis =>
      cases forms' with
      | nil => exact absurd (List.cons.inj same).1 (by decide)
      | cons form' forms' =>
          obtain ⟨first, others⟩ := List.forall_mem_cons.mp legible
          obtain ⟨first', others'⟩ := List.forall_mem_cons.mp legible'
          simp only [spacedForms, List.flatMap_cons, List.cons_append, List.append_assoc,
            List.cons.injEq, true_and] at same
          obtain ⟨rfl, onward⟩ := Form.text_injective first first' (ends_spacedForms forms rest)
            (ends_spacedForms forms' rest') same
          obtain ⟨rfl, rfl⟩ := inductionHypothesis others others' onward
          exact ⟨rfl, rfl⟩

/-- Blanks before something else are counted. -/
theorem blanks_injective {n m : Nat} {letters letters' : List Char}
    (stops : ' ' ∉ letters.head?) (stops' : ' ' ∉ letters'.head?)
    (same : List.replicate n ' ' ++ letters = List.replicate m ' ' ++ letters') :
    n = m ∧ letters = letters' := by
  induction n generalizing m with
  | zero =>
      cases m with
      | zero => exact ⟨rfl, same⟩
      | succ m => exact absurd (by rw [show letters = _ from same]; rfl) stops
  | succ n inductionHypothesis =>
      cases m with
      | zero => exact absurd (by rw [← show _ = letters' from same]; rfl) stops'
      | succ m =>
          obtain ⟨rfl, rfl⟩ := inductionHypothesis (List.cons.inj same).2
          exact ⟨rfl, rfl⟩

namespace Line

theorem head_ne_blank {line : Line} (legible : line.IsLegible) (rest : List Char) :
    ' ' ∉ (line.keyword ++ rest).head? := by
  obtain ⟨c, letters, same⟩ := List.exists_cons_of_ne_nil legible.begins
  have solid := legible.solid
  rw [same] at solid ⊢
  rintro ⟨⟩
  exact Bool.noConfusion (solid ' ' List.mem_cons_self)

/-- No line begins with the text of another one. -/
theorem text_injective {line line' : Line} {rest rest' : List Char} (legible : line.IsLegible)
    (legible' : line'.IsLegible) (same : line.text ++ rest = line'.text ++ rest') :
    line = line' ∧ rest = rest' := by
  simp only [text, List.append_assoc, List.singleton_append] at same
  obtain ⟨steps, content⟩ :=
    blanks_injective (head_ne_blank legible _) (head_ne_blank legible' _) same
  obtain ⟨keywords, forms⟩ := legible.solid.word_injective legible'.solid
    (ends_spacedForms _ _).1 (ends_spacedForms _ _).1 content
  obtain ⟨operands, rests⟩ := spacedForms_injective legible.forms legible'.forms forms
  refine ⟨?_, rests⟩
  cases line
  cases line'
  rw [Line.mk.injEq]
  exact ⟨Nat.eq_of_mul_eq_mul_left Nat.two_pos steps, keywords, operands⟩

/-- A text is that of one list of lines at most. -/
theorem texts_injective {lines lines' : List Line} (legible : ∀ line ∈ lines, line.IsLegible)
    (legible' : ∀ line ∈ lines', line.IsLegible)
    (same : lines.flatMap text = lines'.flatMap text) : lines = lines' := by
  have nonempty (line : Line) (rest : List Char) : line.text ++ rest ≠ [] := by
    simp [text]
  induction lines generalizing lines' with
  | nil =>
      cases lines' with
      | nil => rfl
      | cons line' lines' => exact absurd same.symm (nonempty line' _)
  | cons line lines inductionHypothesis =>
      cases lines' with
      | nil => exact absurd same (nonempty line _)
      | cons line' lines' =>
          obtain ⟨first, others⟩ := List.forall_mem_cons.mp legible
          obtain ⟨first', others'⟩ := List.forall_mem_cons.mp legible'
          obtain ⟨rfl, rest⟩ := text_injective first first' same
          rw [inductionHypothesis others others' rest]

end Line

end TreeWalker
