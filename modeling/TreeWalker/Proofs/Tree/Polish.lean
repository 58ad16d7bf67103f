import Mathlib.Data.List.Forall2
import TreeWalker.Proofs.Tree.Forms

/-!
# Forms in reverse Polish order

Without parentheses, a form is written as its words, every operator after its operands.  If
it is known of each word how many operands it takes, the words are read with a stack of
forms, and no other form has the same words.

The letters of a word say how many operands it takes, unless they are those of the minus
sign.  A form has one operand too few for its words if the operands of all of them are added
up.  So the letters of all words say how many of the minus signs take one operand, but
not which of them.
-/

namespace TreeWalker

/-- A word of a form: an operand, or an operator with one or two operands before it. -/
inductive Word where
  | operand (letters : List Char)
  | unary (letters : List Char)
  | binary (letters : List Char)
deriving DecidableEq

/-- What a minus sign stands for. -/
inductive Minus where
  | negation
  | subtraction
deriving DecidableEq

namespace Word

def letters : Word → List Char
  | operand letters | unary letters | binary letters => letters

@[simp]
theorem letters_operand (letters : List Char) : (operand letters).letters = letters :=
  rfl

@[simp]
theorem letters_unary (letters : List Char) : (unary letters).letters = letters :=
  rfl

@[simp]
theorem letters_binary (letters : List Char) : (binary letters).letters = letters :=
  rfl

/-- Number of operands of a word. -/
def takes : Word → Nat
  | operand _ => 0
  | unary _ => 1
  | binary _ => 2

/-- Number of operands of several words. -/
def takesOfAll : List Word → Nat
  | [] => 0
  | word :: words => word.takes + takesOfAll words

theorem takesOfAll_append (words words' : List Word) :
    takesOfAll (words ++ words') = takesOfAll words + takesOfAll words' := by
  induction words with
  | nil => exact (Nat.zero_add _).symm
  | cons word words inductionHypothesis =>
      rw [List.cons_append, takesOfAll, takesOfAll, inductionHypothesis, Nat.add_assoc]

/-- What a word stands for if it is a minus sign. -/
def minus? : Word → Option Minus
  | operand _ => none
  | unary letters => if letters = ['-'] then some .negation else none
  | binary letters => if letters = ['-'] then some .subtraction else none

/-- Put a word on the forms that were read before it, the last of them first.  The operands of
an assignment stand in the other order. -/
def push : Word → List Form → List Form
  | operand letters, read => .word letters :: read
  | unary letters, inner :: read => .one letters inner :: read
  | binary letters, right :: left :: read =>
    (if letters = ['='] then .two letters right left else .two letters left right) :: read
  | _, read => read

end Word

namespace Form

/-- The words of a form, every operator after its operands, and the value of an assignment
before its name. -/
def words : Form → List Word
  | word letters => [.operand letters]
  | one head operand => operand.words ++ [.unary head]
  | two head left right =>
    if head = ['='] then right.words ++ left.words ++ [.binary head]
    else left.words ++ right.words ++ [.binary head]

/-- The text of a form in reverse Polish order. -/
def polish : Form → List Char
  | word letters => letters
  | one head operand => operand.polish ++ ' ' :: head
  | two head left right =>
    if head = ['='] then right.polish ++ ' ' :: (left.polish ++ ' ' :: head)
    else left.polish ++ ' ' :: (right.polish ++ ' ' :: head)

end Form

/-! ## Reading words -/

/-- The forms that are read from some words, after others. -/
def readWords (words : List Word) (read : List Form) : List Form :=
  words.foldl (fun read word => word.push read) read

theorem readWords_append (words words' : List Word) (read : List Form) :
    readWords (words ++ words') read = readWords words' (readWords words read) :=
  List.foldl_append

namespace Form

theorem readWords_words (form : Form) (read : List Form) :
    readWords form.words read = form :: read := by
  induction form generalizing read with
  | word letters => rfl
  | one head operand inductionHypothesis =>
      rw [words, readWords_append, inductionHypothesis]
      rfl
  | two head left right leftHypothesis rightHypothesis =>
      rw [words]
      split
      · next assigns =>
          rw [readWords_append, readWords_append, rightHypothesis, leftHypothesis]
          simp [readWords, Word.push, assigns]
      · next others =>
          rw [readWords_append, readWords_append, leftHypothesis, rightHypothesis]
          simp [readWords, Word.push, others]

/-- No two forms have the same words. -/
theorem words_injective : Function.Injective words := by
  intro form form' same
  have read := readWords_words form []
  rw [same, readWords_words] at read
  exact (List.cons.inj read).1.symm

/-- The operands of all words are all forms that are read but one. -/
theorem takesOfAll_words (form : Form) : Word.takesOfAll form.words + 1 = form.words.length := by
  have single (word : Word) : Word.takesOfAll [word] = word.takes := rfl
  induction form with
  | word letters => rfl
  | one head operand inductionHypothesis =>
      rw [words, Word.takesOfAll_append, single, Word.takes, List.length_append,
        ← inductionHypothesis]
      rfl
  | two head left right leftHypothesis rightHypothesis =>
      rw [words]
      split <;>
        rw [Word.takesOfAll_append, Word.takesOfAll_append, single, Word.takes,
          List.length_append, List.length_append, ← leftHypothesis, ← rightHypothesis,
          List.length_singleton] <;>
        omega

/-! ## Letters -/

/-- The text of a form is made of the letters of its words, with blanks between them. -/
theorem blank_polish (form : Form) :
    ' ' :: form.polish = form.words.flatMap fun word => ' ' :: word.letters := by
  induction form with
  | word letters => simp [polish, words]
  | one head operand inductionHypothesis => simp [polish, words, ← inductionHypothesis]
  | two head left right leftHypothesis rightHypothesis =>
      rw [polish, words]
      split <;> simp [← leftHypothesis, ← rightHypothesis]

/-- What is known of the words of two operands, and of their operator, is known of all words
of the form. -/
theorem forall_mem_words_two {property : Word → Prop} {head : List Char} {left right : Form}
    (lefts : ∀ word ∈ left.words, property word) (rights : ∀ word ∈ right.words, property word)
    (operator : property (.binary head)) : ∀ word ∈ (two head left right).words, property word := by
  have last : ∀ word ∈ [Word.binary head], property word := List.forall_mem_singleton.mpr operator
  rw [words]
  split
  · exact List.forall_mem_append.mpr ⟨List.forall_mem_append.mpr ⟨rights, lefts⟩, last⟩
  · exact List.forall_mem_append.mpr ⟨List.forall_mem_append.mpr ⟨lefts, rights⟩, last⟩

theorem IsLegible.words_solid {form : Form} (legible : form.IsLegible) :
    ∀ word ∈ form.words, IsSolid word.letters := by
  induction form with
  | word letters => exact List.forall_mem_singleton.mpr legible
  | one head operand inductionHypothesis =>
      exact List.forall_mem_append.mpr
        ⟨inductionHypothesis legible.2, List.forall_mem_singleton.mpr legible.1⟩
  | two head left right leftHypothesis rightHypothesis =>
      exact forall_mem_words_two (leftHypothesis legible.2.1) (rightHypothesis legible.2.2)
        legible.1

/-- The text tells the words apart. -/
theorem letters_of_polish {form form' : Form} (legible : form.IsLegible)
    (legible' : form'.IsLegible) (same : form.polish = form'.polish) :
    form.words.map Word.letters = form'.words.map Word.letters := by
  have spaced (form : Form) :
      spacedForms (form.words.map fun word => .word word.letters) = ' ' :: form.polish := by
    rw [spacedForms, List.flatMap_map, blank_polish]
    rfl
  have areWords (form : Form) (legible : form.IsLegible) :
      ∀ shown ∈ form.words.map fun word => Form.word word.letters, shown.IsLegible := by
    rintro _ shown
    obtain ⟨word, member, rfl⟩ := List.mem_map.mp shown
    exact legible.words_solid word member
  have texts : spacedForms (form.words.map fun word => .word word.letters) ++ '\n' :: [] =
      spacedForms (form'.words.map fun word => .word word.letters) ++ '\n' :: [] := by
    rw [spaced, spaced, same]
  have forms := (spacedForms_injective (areWords form legible) (areWords form' legible') texts).1
  have injective : Function.Injective Form.word := fun _ _ same => Form.word.inj same
  refine List.map_injective_iff.mpr injective ?_
  rwa [List.map_map, List.map_map]

end Form

/-! ## Minus signs -/

/-- The word of a minus sign. -/
def Minus.word : Minus → Word
  | negation => .unary ['-']
  | subtraction => .binary ['-']

/-- Letters of the operators with one operand. -/
def unaryHeads : List (List Char) :=
  [['!'], ['-']]

/-- Letters of the operators with two operands. -/
def binaryHeads : List (List Char) :=
  [['='], ['o', 'r'], ['a', 'n', 'd'], ['=', '='], ['!', '='], ['<'], ['<', '='], ['>'],
    ['>', '='], ['+'], ['-'], ['*'], ['/']]

namespace Word

/-- The letters of a word are those of an operator with its number of operands, or of no
operator if it has none. -/
def IsUsual : Word → Prop
  | operand letters => letters ∉ unaryHeads ∧ letters ∉ binaryHeads
  | unary letters => letters ∈ unaryHeads
  | binary letters => letters ∈ binaryHeads

instance : DecidablePred IsUsual
  | operand letters => inferInstanceAs (Decidable (letters ∉ unaryHeads ∧ letters ∉ binaryHeads))
  | unary letters => inferInstanceAs (Decidable (letters ∈ unaryHeads))
  | binary letters => inferInstanceAs (Decidable (letters ∈ binaryHeads))

/-- The words are the same or both a minus sign. -/
def Alike (word word' : Word) : Prop :=
  word = word' ∨ ∃ minus minus' : Minus, word = minus.word ∧ word' = minus'.word

variable {word word' : Word} {words words' : List Word}

theorem filterMap_minus?_unary (letters : List Char) :
    [unary letters].filterMap minus? = if letters = ['-'] then [.negation] else [] := by
  by_cases isMinus : letters = ['-'] <;> simp [minus?, isMinus]

theorem filterMap_minus?_binary (letters : List Char) :
    [binary letters].filterMap minus? = if letters = ['-'] then [.subtraction] else [] := by
  by_cases isMinus : letters = ['-'] <;> simp [minus?, isMinus]

@[simp]
theorem minus?_word (minus : Minus) : minus.word.minus? = some minus := by
  cases minus <;> rfl

/-- A minus sign that stands for negation takes one operand less. -/
theorem takes_word (minus : Minus) :
    minus.word.takes + (if minus = .negation then 1 else 0) = 2 := by
  cases minus <;> rfl

/-- Only the minus sign has one operand or two. -/
theorem IsUsual.alike (usual : word.IsUsual) (usual' : word'.IsUsual)
    (same : word.letters = word'.letters) : word.Alike word' := by
  have shared : ∀ letters ∈ unaryHeads, letters ∈ binaryHeads → letters = ['-'] := by decide
  cases word with
  | operand letters =>
      cases word' with
      | operand letters' => exact .inl (congrArg operand same)
      | unary letters' =>
          obtain rfl : letters = letters' := same
          exact absurd usual' usual.1
      | binary letters' =>
          obtain rfl : letters = letters' := same
          exact absurd usual' usual.2
  | unary letters =>
      cases word' with
      | operand letters' =>
          obtain rfl : letters = letters' := same
          exact absurd usual usual'.1
      | unary letters' => exact .inl (congrArg unary same)
      | binary letters' =>
          obtain rfl : letters = letters' := same
          obtain rfl := shared letters usual usual'
          exact .inr ⟨.negation, .subtraction, rfl, rfl⟩
  | binary letters =>
      cases word' with
      | operand letters' =>
          obtain rfl : letters = letters' := same
          exact absurd usual usual'.2
      | unary letters' =>
          obtain rfl : letters = letters' := same
          obtain rfl := shared letters usual' usual
          exact .inr ⟨.subtraction, .negation, rfl, rfl⟩
      | binary letters' => exact .inl (congrArg binary same)

theorem forall₂_alike (usual : ∀ word ∈ words, word.IsUsual)
    (usual' : ∀ word ∈ words', word.IsUsual)
    (same : words.map letters = words'.map letters) : List.Forall₂ Alike words words' := by
  induction words generalizing words' with
  | nil =>
      rw [List.map_eq_nil_iff.mp same.symm]
      exact .nil
  | cons word words inductionHypothesis =>
      obtain ⟨word', words', rfl, heads, others⟩ := List.map_eq_cons_iff.mp same.symm
      obtain ⟨first, rest⟩ := List.forall_mem_cons.mp usual
      obtain ⟨first', rest'⟩ := List.forall_mem_cons.mp usual'
      exact .cons (first.alike first' heads.symm) (inductionHypothesis rest rest' others.symm)

/-- Words that are alike are the same if their minus signs are. -/
theorem eq_of_minuses (alike : List.Forall₂ Alike words words')
    (same : words.filterMap minus? = words'.filterMap minus?) : words = words' := by
  induction alike with
  | nil => rfl
  | cons first _ inductionHypothesis =>
      rcases first with rfl | ⟨minus, minus', rfl, rfl⟩
      · rw [List.filterMap_cons, List.filterMap_cons] at same
        split at same
        · rw [inductionHypothesis same]
        · rw [inductionHypothesis (List.cons.inj same).2]
      · rw [List.filterMap_cons_some (minus?_word _), List.filterMap_cons_some (minus?_word _)]
          at same
        obtain ⟨rfl, others⟩ := List.cons.inj same
        rw [inductionHypothesis others]

theorem length_minuses (alike : List.Forall₂ Alike words words') :
    (words.filterMap minus?).length = (words'.filterMap minus?).length := by
  induction alike with
  | nil => rfl
  | cons first _ inductionHypothesis =>
      rcases first with rfl | ⟨minus, minus', rfl, rfl⟩
      · rw [List.filterMap_cons, List.filterMap_cons]
        split <;> simp [inductionHypothesis]
      · simp [inductionHypothesis]

/-- A minus sign with one operand counts for one that has two of them, less one. -/
theorem takesOfAll_add_count (alike : List.Forall₂ Alike words words') :
    takesOfAll words + (words.filterMap minus?).count .negation =
      takesOfAll words' + (words'.filterMap minus?).count .negation := by
  induction alike with
  | nil => rfl
  | cons first _ inductionHypothesis =>
      simp only [takesOfAll]
      rcases first with rfl | ⟨minus, minus', rfl, rfl⟩
      · rw [List.filterMap_cons, List.filterMap_cons]
        split
        · omega
        · simp only [List.count_cons]
          omega
      · have takes := takes_word minus
        have takes' := takes_word minus'
        rw [List.filterMap_cons_some (minus?_word _), List.filterMap_cons_some (minus?_word _)]
        simp only [List.count_cons, beq_iff_eq]
        omega

end Word

/-- There are minus signs of both kinds. -/
def Mixes (minuses : List Minus) : Prop :=
  .negation ∈ minuses ∧ .subtraction ∈ minuses

variable {minuses minuses' : List Minus}

theorem eq_replicate_of_not_mem (minus : Minus) {other : Minus} (differ : other ≠ minus)
    (none : other ∉ minuses) : minuses = List.replicate minuses.length minus := by
  refine List.eq_replicate_of_mem fun member isMember => ?_
  have noOther : member ≠ other := fun same => none (same ▸ isMember)
  cases member <;> cases minus <;> cases other <;> first | rfl | exact absurd rfl ‹_ ≠ _›

/-- If all of some minus signs are of one kind, it is enough to count them. -/
theorem minuses_eq_of_unmixed (unmixed : ¬ Mixes minuses)
    (lengths : minuses.length = minuses'.length)
    (negations : minuses.count .negation = minuses'.count .negation) : minuses = minuses' := by
  rcases not_and_or.mp unmixed with none | none
  · have none' : .negation ∉ minuses' := by
      rwa [← List.count_eq_zero, ← negations, List.count_eq_zero]
    rw [eq_replicate_of_not_mem .subtraction (by decide) none,
      eq_replicate_of_not_mem .subtraction (by decide) none', lengths]
  · have all := eq_replicate_of_not_mem .negation (by decide) none
    have each : minuses'.count .negation = minuses'.length := by
      rw [← negations, ← lengths, all, List.count_replicate_self, List.length_replicate]
    have all' := List.eq_replicate_of_mem fun minus member =>
      (List.count_eq_length.mp each minus member).symm
    rw [all, all', lengths]

/-- Words that are alike, and of which all but one are read as operands, are the same if
their minus signs are, or if those of one list do not mix. -/
theorem words_eq_of_alike {words words' : List Word} (alike : List.Forall₂ Word.Alike words words')
    (takes : Word.takesOfAll words = Word.takesOfAll words')
    (known : words.filterMap Word.minus? = words'.filterMap Word.minus? ∨
      ¬ Mixes (words.filterMap Word.minus?) ∨ ¬ Mixes (words'.filterMap Word.minus?)) :
    words = words' := by
  have lengths := Word.length_minuses alike
  have negations : (words.filterMap Word.minus?).count .negation =
      (words'.filterMap Word.minus?).count .negation := by
    have sums := Word.takesOfAll_add_count alike
    omega
  refine Word.eq_of_minuses alike ?_
  rcases known with same | unmixed | unmixed
  · exact same
  · exact minuses_eq_of_unmixed unmixed lengths negations
  · exact (minuses_eq_of_unmixed unmixed lengths.symm negations.symm).symm

/-- A form is told by its text in reverse Polish order if it is known what the minus signs
stand for, or if there are no two kinds of them in one of the forms. -/
theorem Form.eq_of_polish {form form' : Form} (legible : form.IsLegible)
    (legible' : form'.IsLegible) (usual : ∀ word ∈ form.words, word.IsUsual)
    (usual' : ∀ word ∈ form'.words, word.IsUsual) (same : form.polish = form'.polish)
    (known : form.words.filterMap Word.minus? = form'.words.filterMap Word.minus? ∨
      ¬ Mixes (form.words.filterMap Word.minus?) ∨
        ¬ Mixes (form'.words.filterMap Word.minus?)) : form = form' := by
  have letters := letters_of_polish legible legible' same
  have alike := Word.forall₂_alike usual usual' letters
  -- There are as many words in both texts, and one operand less than words.
  have takes : Word.takesOfAll form.words = Word.takesOfAll form'.words := by
    have lengths := List.Forall₂.length_eq alike
    rw [← takesOfAll_words, ← takesOfAll_words] at lengths
    omega
  exact words_injective (words_eq_of_alike alike takes known)

end TreeWalker
