import TreeWalker.Proofs.Decimal.Interval
import TreeWalker.Value

/-!
# Reading number texts

The text of a number is read back by its digits: those before and after the point are
one whole number, and the point and the exponent say by which power of ten it is
multiplied.  So the text tells the shortest decimal, and with its sign the double.
-/

namespace TreeWalker.Decimal

/-- Text of decimal digits. -/
def AllDigits (text : List Char) : Prop :=
  ∀ c ∈ text, c.isDigit = true

/-- The text does not go on with a digit. -/
def NoDigit (rest : List Char) : Prop :=
  ∀ c ∈ rest.head?, c.isDigit = false

theorem noDigit_nil : NoDigit [] := nofun

/-- The exponent after the digits of a number. -/
def exponentOf : List Char → Int
  | 'e' :: '-' :: digits => -digitsValue digits
  | 'e' :: _ :: digits => digitsValue digits
  | _ => 0

@[simp]
theorem exponentOf_nil : exponentOf [] = 0 :=
  rfl

/-- The number that a text without a sign stands for. -/
def textValue (text : List Char) : ℚ :=
  let whole := text.takeWhile Char.isDigit
  match text.dropWhile Char.isDigit with
  | '.' :: rest =>
    let fraction := rest.takeWhile Char.isDigit
    digitsValue (whole ++ fraction) *
      10 ^ (exponentOf (rest.dropWhile Char.isDigit) - fraction.length)
  | rest => digitsValue whole * 10 ^ exponentOf rest

/-! ## Digits -/

theorem digitsValue_eq (digits : List Char) : digitsValue digits = Nat.ofDigitChars 10 digits 0 :=
  Nat.ofDigitChars_eq_foldl.symm

@[simp]
theorem digitsValue_toDigits (n : Nat) : digitsValue (Nat.toDigits 10 n) = n := by
  rw [digitsValue_eq, Nat.ofDigitChars_ten_toDigits]

@[simp]
theorem digitsValue_zeros_append (zeros : Nat) (digits : List Char) :
    digitsValue (List.replicate zeros '0' ++ digits) = digitsValue digits := by
  rw [digitsValue_eq, digitsValue_eq, Nat.ofDigitChars_append, Nat.ofDigitChars_replicate_zero,
    Nat.mul_zero]

@[simp]
theorem digitsValue_append_zeros (digits : List Char) (zeros : Nat) :
    digitsValue (digits ++ List.replicate zeros '0') = digitsValue digits * 10 ^ zeros := by
  rw [digitsValue_eq, digitsValue_eq, Nat.ofDigitChars_append, Nat.ofDigitChars_replicate_zero,
    Nat.mul_comm]

/-- A zero after the point changes nothing. -/
theorem digitsValue_append_zero (digits : List Char) :
    (digitsValue (digits ++ ['0']) : ℚ) * 10 ^ (-(['0'].length) : Int) = digitsValue digits := by
  have longer := digitsValue_append_zeros digits 1
  rw [List.replicate_one] at longer
  rw [longer, List.length_singleton]
  push_cast
  rw [zpow_neg, zpow_one, mul_assoc, mul_inv_cancel₀ (by norm_num), mul_one]

theorem allDigits_toDigits (n : Nat) : AllDigits (Nat.toDigits 10 n) :=
  fun _ member => Nat.isDigit_of_mem_toDigits (by decide) (by decide) member

theorem allDigits_zeros (zeros : Nat) : AllDigits (List.replicate zeros '0') := by
  intro c member
  rw [List.eq_of_mem_replicate member]
  decide

theorem AllDigits.append {first second : List Char} (digits : AllDigits first)
    (more : AllDigits second) : AllDigits (first ++ second) := by
  intro c member
  rcases List.mem_append.mp member with here | there
  · exact digits c here
  · exact more c there

theorem span_digits {digits rest : List Char} (allDigits : AllDigits digits)
    (noDigit : NoDigit rest) :
    (digits ++ rest).takeWhile Char.isDigit = digits ∧
      (digits ++ rest).dropWhile Char.isDigit = rest := by
  rw [List.takeWhile_append_of_pos allDigits, List.dropWhile_append_of_pos allDigits]
  cases rest with
  | nil => simp
  | cons c rest =>
      have other : c.isDigit = false := noDigit c rfl
      simp [other]

/-! ## Texts with and without a point -/

/-- The end of a number text after its digits: nothing, or an exponent. -/
def Trails (rest : List Char) : Prop :=
  NoDigit rest ∧ '.' ∉ rest.head?

theorem textValue_whole {whole rest : List Char} (digits : AllDigits whole) (trails : Trails rest) :
    textValue (whole ++ rest) = digitsValue whole * 10 ^ exponentOf rest := by
  obtain ⟨takes, drops⟩ := span_digits digits trails.1
  unfold textValue
  rw [takes, drops]
  split
  · exact absurd rfl trails.2
  · rfl

theorem textValue_point {whole fraction rest : List Char} (digits : AllDigits whole)
    (more : AllDigits fraction) (noDigit : NoDigit rest) :
    textValue (whole ++ '.' :: (fraction ++ rest)) =
      digitsValue (whole ++ fraction) * 10 ^ (exponentOf rest - fraction.length) := by
  have point : NoDigit ('.' :: (fraction ++ rest)) := by
    rintro _ ⟨⟩
    decide
  obtain ⟨takes, drops⟩ := span_digits digits point
  obtain ⟨takes', drops'⟩ := span_digits more noDigit
  unfold textValue
  rw [takes, drops]
  simp only [takes', drops']

namespace Layout

/-- A scientific exponent is a sign with digits after it. -/
theorem exponentText_eq (layout : Layout) (exponent : Int) :
    ∃ sign digits, layout.exponentText exponent = sign :: digits ∧ AllDigits digits ∧
      digits ≠ [] ∧ (sign = '+' ∨ sign = '-') := by
  have zeros := allDigits_zeros
    (layout.exponentDigits - (Nat.toDigits 10 exponent.natAbs).length)
  have digits := zeros.append (allDigits_toDigits exponent.natAbs)
  have some := List.append_ne_nil_of_right_ne_nil
    (List.replicate (layout.exponentDigits - (Nat.toDigits 10 exponent.natAbs).length) '0')
    (Nat.toDigits_ne_nil (n := exponent.natAbs) (b := 10))
  unfold exponentText List.leftpad
  split
  · exact ⟨_, _, rfl, digits, some, Or.inr rfl⟩
  · exact ⟨_, _, rfl, digits, some, Or.inl rfl⟩

/-- The exponent of a scientific text. -/
theorem exponentOf_exponentText (layout : Layout) (exponent : Int) :
    exponentOf ('e' :: layout.exponentText exponent) = exponent := by
  have negated (digits : List Char) : exponentOf ('e' :: '-' :: digits) = -digitsValue digits := rfl
  have asIs (digits : List Char) : exponentOf ('e' :: '+' :: digits) = digitsValue digits := rfl
  unfold exponentText List.leftpad
  split
  · rw [negated, digitsValue_zeros_append, digitsValue_toDigits]
    omega
  · rw [asIs, digitsValue_zeros_append, digitsValue_toDigits]
    omega

theorem trails_exponent (layout : Layout) (exponent : Int) :
    Trails ('e' :: layout.exponentText exponent) :=
  ⟨by rintro _ ⟨⟩; decide, nofun⟩

end Layout

/-! ## The text of a decimal -/

/-- A text of a number: digits with a point among them, or in scientific form. -/
inductive Writes (layout : Layout) : List Char → ℚ → Prop where
  | point {whole fraction : List Char} (digits : AllDigits whole) (more : AllDigits fraction)
    (some : whole ≠ []) (others : fraction ≠ []) :
    Writes layout (whole ++ '.' :: fraction)
      (digitsValue (whole ++ fraction) * 10 ^ (-fraction.length : Int))
  | digit {c : Char} (isDigit : c.isDigit = true) (exponent : Int) :
    Writes layout (c :: 'e' :: layout.exponentText exponent) (digitsValue [c] * 10 ^ exponent)
  | scientific {c : Char} {others : List Char} (isDigit : c.isDigit = true)
    (more : AllDigits others) (exponent : Int) :
    Writes layout (c :: '.' :: (others ++ 'e' :: layout.exponentText exponent))
      (digitsValue (c :: others) * 10 ^ (exponent - others.length))

namespace Layout

theorem writes_scientific (layout : Layout) {digits : List Char} (allDigits : AllDigits digits)
    (some : digits ≠ []) (exponent : Int) :
    Writes layout (layout.scientific digits exponent)
      (digitsValue digits * 10 ^ (exponent - (digits.length - 1))) := by
  match digits with
  | [digit] =>
      have writes : Writes layout (layout.scientific [digit] exponent)
          (digitsValue [digit] * 10 ^ exponent) :=
        .digit (allDigits digit List.mem_cons_self) exponent
      simpa using writes
  | digit :: second :: others =>
      obtain ⟨first, more⟩ := List.forall_mem_cons.mp allDigits
      have writes : Writes layout (layout.scientific (digit :: second :: others) exponent)
          (digitsValue (digit :: second :: others) *
            10 ^ (exponent - (second :: others).length)) :=
        .scientific first more exponent
      simpa using writes

theorem writes_positional (layout : Layout) {digits : List Char} (allDigits : AllDigits digits)
    (some : digits ≠ []) (exponent : Int) :
    Writes layout (positional digits exponent)
      (digitsValue digits * 10 ^ (exponent - (digits.length - 1))) := by
  have nonempty := List.length_pos_iff.mpr some
  unfold positional
  split
  · next negative =>
      have writes := @Writes.point layout _ _ (allDigits_zeros 1)
        ((allDigits_zeros (-exponent - 1).toNat).append allDigits) (List.cons_ne_nil _ _)
        (List.append_ne_nil_of_right_ne_nil _ some)
      have place : (-((List.replicate (-exponent - 1).toNat '0' ++ digits).length : Int)) =
          exponent - (digits.length - 1) := by
        rw [List.length_append, List.length_replicate]
        omega
      rw [digitsValue_zeros_append, digitsValue_zeros_append, place] at writes
      exact writes
  · next notNegative =>
      by_cases fits : digits.length ≤ exponent.toNat + 1
      · have zeros := allDigits_zeros (exponent.toNat + 1 - digits.length)
        have writes := @Writes.point layout _ _ (allDigits.append zeros) (allDigits_zeros 1)
          (List.append_ne_nil_of_left_ne_nil some _) (List.cons_ne_nil _ _)
        have place : exponent - (digits.length - 1 : Int) =
            (exponent.toNat + 1 - digits.length : Nat) := by omega
        rw [List.replicate_one, digitsValue_append_zero, digitsValue_append_zeros, Nat.cast_mul,
          Nat.cast_pow] at writes
        simp only [List.drop_of_length_le fits, List.take_of_length_le fits, List.isEmpty_nil,
          if_true, place, zpow_natCast]
        exact writes
      · have few : exponent.toNat + 1 < digits.length := by omega
        have remain : digits.drop (exponent.toNat + 1) ≠ [] := by
          simpa using few
        have taken : AllDigits (digits.take (exponent.toNat + 1)) :=
          fun c member => allDigits c (List.mem_of_mem_take member)
        have dropped : AllDigits (digits.drop (exponent.toNat + 1)) :=
          fun c member => allDigits c (List.mem_of_mem_drop member)
        have writes := @Writes.point layout _ _ taken dropped (by simp [some]) remain
        have place : (-((digits.drop (exponent.toNat + 1)).length : Int)) =
            exponent - (digits.length - 1) := by
          rw [List.length_drop]
          omega
        rw [List.take_append_drop, place] at writes
        simpa [List.isEmpty_eq_false_iff.mpr remain, Nat.sub_eq_zero_of_le few.le] using writes

/-- The text of a decimal stands for that decimal. -/
theorem writes_numeral (layout : Layout) (d : Numeral) :
    Writes layout (layout.numeral d) d.value := by
  have digits := allDigits_toDigits d.digits
  have some := Nat.toDigits_ne_nil (n := d.digits) (b := 10)
  have place : d.exponent + ((Nat.toDigits 10 d.digits).length - 1 : Int) -
      ((Nat.toDigits 10 d.digits).length - 1) = d.exponent := by omega
  have positional := layout.writes_positional digits some
    (d.exponent + ((Nat.toDigits 10 d.digits).length - 1))
  have scientific := layout.writes_scientific digits some
    (d.exponent + ((Nat.toDigits 10 d.digits).length - 1))
  rw [place, digitsValue_toDigits] at positional scientific
  unfold numeral
  simp only
  split
  · exact positional
  · exact scientific

/-- The text of a finite magnitude stands for its shortest decimal. -/
theorem writes_magnitude (layout : Layout) {size : Magnitude} (isFinite : size.IsFinite) :
    Writes layout (layout.magnitude size) size.shortestValue := by
  cases size with
  | undefined => exact absurd rfl isFinite.2
  | infinite => exact absurd rfl isFinite.1
  | zero =>
      have writes := layout.writes_positional (allDigits_zeros 1) (List.cons_ne_nil _ _) 0
      have zero : digitsValue (List.replicate 1 '0') = 0 := rfl
      rw [zero, Nat.cast_zero, zero_mul] at writes
      exact writes
  | finite v => exact layout.writes_numeral v.shortest

end Layout

/-- A character of a number text. -/
def IsPart (c : Char) : Prop :=
  c.isDigit = true ∨ c ∈ ['.', 'e', '+', '-']

instance : DecidablePred IsPart :=
  fun c => inferInstanceAs (Decidable (c.isDigit = true ∨ c ∈ ['.', 'e', '+', '-']))

namespace Writes

variable {layout : Layout} {text : List Char} {value : ℚ}

/-- Such a text begins with a digit. -/
theorem begins (writes : Writes layout text value) :
    ∃ c rest, text = c :: rest ∧ c.isDigit = true := by
  cases writes with
  | @point whole fraction digits _ some _ =>
      obtain ⟨c, rest, rfl⟩ := List.exists_cons_of_ne_nil some
      exact ⟨c, rest ++ '.' :: fraction, rfl, digits c List.mem_cons_self⟩
  | digit isDigit | scientific isDigit => exact ⟨_, _, rfl, isDigit⟩

theorem parts (writes : Writes layout text value) : ∀ c ∈ text, IsPart c := by
  have ofDigits {digits : List Char} (allDigits : AllDigits digits) : ∀ c ∈ digits, IsPart c :=
    fun c member => Or.inl (allDigits c member)
  have point : IsPart '.' := Or.inr (by decide)
  have exponent (n : Int) : ∀ c ∈ 'e' :: layout.exponentText n, IsPart c := by
    obtain ⟨sign, digits, text, allDigits, _, isSign⟩ := layout.exponentText_eq n
    rw [text]
    refine List.forall_mem_cons.mpr ⟨Or.inr (by decide), List.forall_mem_cons.mpr ⟨?_, ?_⟩⟩
    · rcases isSign with rfl | rfl <;> exact Or.inr (by decide)
    · exact ofDigits allDigits
  cases writes with
  | point digits more =>
      exact List.forall_mem_append.mpr
        ⟨ofDigits digits, List.forall_mem_cons.mpr ⟨point, ofDigits more⟩⟩
  | digit isDigit n => exact List.forall_mem_cons.mpr ⟨Or.inl isDigit, exponent n⟩
  | scientific isDigit more n =>
      exact List.forall_mem_cons.mpr ⟨Or.inl isDigit, List.forall_mem_cons.mpr
        ⟨point, List.forall_mem_append.mpr ⟨ofDigits more, exponent n⟩⟩⟩

/-- The number is read back. -/
theorem textValue_eq (writes : Writes layout text value) : textValue text = value := by
  cases writes with
  | point digits more =>
      have reads := textValue_point digits more noDigit_nil
      rw [List.append_nil] at reads
      simpa [exponentOf] using reads
  | digit isDigit exponent =>
      have reads := textValue_whole (List.forall_mem_singleton.mpr isDigit)
        (layout.trails_exponent exponent)
      rwa [Layout.exponentOf_exponentText] at reads
  | scientific isDigit more exponent =>
      have reads := textValue_point (List.forall_mem_singleton.mpr isDigit) more
        (layout.trails_exponent exponent).1
      rwa [Layout.exponentOf_exponentText] at reads

/-- Text that ends in digits after a character that is no point, or in more than a
zero, is kept. -/
theorem dropPointZero_eq_self {front digits : List Char} {c : Char} (allDigits : AllDigits digits)
    (some : digits ≠ []) (other : c = '.' → digits ≠ ['0']) :
    Value.dropPointZero (front ++ c :: digits) = front ++ c :: digits := by
  obtain ⟨initial, last, rfl⟩ := (List.eq_nil_or_concat digits).resolve_left some
  unfold Value.dropPointZero
  split
  · next kept ends =>
      rcases List.eq_nil_or_concat initial with rfl | ⟨more, before, rfl⟩
      · simp at ends
        obtain ⟨rfl, rfl, -⟩ := ends
        exact absurd rfl (other rfl)
      · simp at ends
        obtain ⟨-, rfl, -⟩ := ends
        exact absurd (allDigits '.' (by simp)) (by decide)
  · rfl

/-- A final point and zero are dropped where nothing but digits is before them. -/
theorem dropPointZero_cases (writes : Writes layout text value) :
    Value.dropPointZero text = text ∨
      ∃ whole, whole ≠ [] ∧ AllDigits whole ∧ text = whole ++ ['.', '0'] ∧
        Value.dropPointZero text = whole := by
  have exponent (front : List Char) (n : Int) :
      Value.dropPointZero (front ++ 'e' :: layout.exponentText n) =
        front ++ 'e' :: layout.exponentText n := by
    obtain ⟨sign, digits, text, allDigits, some, isSign⟩ := layout.exponentText_eq n
    have other : sign = '.' → digits ≠ ['0'] := by
      rcases isSign with rfl | rfl <;> nofun
    have kept := @dropPointZero_eq_self (front ++ ['e']) digits sign allDigits some other
    rw [text]
    simpa using kept
  cases writes with
  | @point whole fraction digits more some others =>
      by_cases zero : fraction = ['0']
      · subst zero
        exact Or.inr ⟨whole, some, digits, rfl, by simp [Value.dropPointZero]⟩
      · exact Or.inl (dropPointZero_eq_self more others fun _ => zero)
  | @digit c _ n => exact Or.inl (exponent [c] n)
  | @scientific c others _ _ n => exact Or.inl (exponent (c :: '.' :: others) n)

/-- So the number is read back without a final point and zero. -/
theorem textValue_dropPointZero (writes : Writes layout text value) :
    textValue (Value.dropPointZero text) = value := by
  rw [← writes.textValue_eq]
  rcases writes.dropPointZero_cases with same | ⟨whole, -, digits, rfl, drops⟩
  · rw [same]
  · have reads := textValue_whole digits ⟨noDigit_nil, nofun⟩
    have reads' := textValue_point digits (allDigits_zeros 1) noDigit_nil
    rw [List.append_nil, exponentOf_nil, zpow_zero, mul_one] at reads
    rw [List.append_nil, exponentOf_nil, zero_sub, List.replicate_one, digitsValue_append_zero]
      at reads'
    rw [drops, reads, reads']

/-- What is kept begins with a digit, and has the characters of a number text. -/
theorem kept (writes : Writes layout text value) :
    ∃ c rest, Value.dropPointZero text = c :: rest ∧ c.isDigit = true ∧
      ∀ d ∈ c :: rest, IsPart d := by
  rcases writes.dropPointZero_cases with same | ⟨whole, some, digits, -, drops⟩
  · obtain ⟨c, rest, rfl, isDigit⟩ := writes.begins
    exact ⟨c, rest, same, isDigit, writes.parts⟩
  · obtain ⟨c, rest, rfl⟩ := List.exists_cons_of_ne_nil some
    exact ⟨c, rest, drops, digits c List.mem_cons_self, fun d member => Or.inl (digits d member)⟩

end Writes

/-! ## The text of a double -/

theorem dropPointZero_negative (text : List Char) :
    Value.dropPointZero ('-' :: text) = '-' :: Value.dropPointZero text := by
  unfold Value.dropPointZero
  rw [List.reverse_cons]
  match isReversed : text.reverse with
  | [] =>
      obtain rfl := List.reverse_eq_iff.mp isReversed
      rfl
  | [last] =>
      obtain rfl := List.reverse_eq_iff.mp isReversed
      split <;> simp_all
  | last :: before :: kept =>
      rw [List.cons_append, List.cons_append]
      by_cases ends : last = '0' ∧ before = '.'
      · obtain ⟨rfl, rfl⟩ := ends
        simp
      · rw [← List.reverse_reverse text, isReversed]
        split <;> simp_all

/-- The text of a finite double: its magnitude, with a sign before it if it has one. -/
theorem shownNumber_eq {x : Float} (isFinite : (Magnitude.ofFloat x).IsFinite) :
    (Value.shownNumber x).toList =
      (if signBit x then ['-'] else []) ++
        Value.dropPointZero (Value.numberLayout.magnitude (Magnitude.ofFloat x)) := by
  have defined : (Magnitude.ofFloat x != .undefined) = true := bne_iff_ne.mpr isFinite.2
  rw [Value.shownNumber, String.toList_ofList, Layout.float]
  simp only [defined, Bool.and_true]
  split
  · exact dropPointZero_negative _
  · rfl

/-- Different finite doubles have different texts. -/
theorem eq_of_shownNumber {x y : Float} (isFinite : (Magnitude.ofFloat x).IsFinite)
    (isFinite' : (Magnitude.ofFloat y).IsFinite)
    (same : Value.shownNumber x = Value.shownNumber y) : x = y := by
  have writes := Value.numberLayout.writes_magnitude isFinite
  have writes' := Value.numberLayout.writes_magnitude isFinite'
  obtain ⟨c, rest, kept, isDigit, -⟩ := writes.kept
  obtain ⟨c', rest', kept', isDigit', -⟩ := writes'.kept
  have texts := congrArg String.toList same
  rw [shownNumber_eq isFinite, shownNumber_eq isFinite'] at texts
  have minus : ('-' : Char).isDigit = false := by decide
  -- A digit is no sign, so either both texts have a sign or none has.
  have parts : signBit x = signBit y ∧
      Value.dropPointZero (Value.numberLayout.magnitude (Magnitude.ofFloat x)) =
        Value.dropPointZero (Value.numberLayout.magnitude (Magnitude.ofFloat y)) := by
    cases sign : signBit x <;> cases sign' : signBit y
    · exact ⟨rfl, by simpa [sign, sign'] using texts⟩
    · rw [kept, sign, sign'] at texts
      obtain ⟨rfl, -⟩ := List.cons.inj (texts : c :: rest = '-' :: _)
      exact absurd isDigit (by decide)
    · rw [kept', sign, sign'] at texts
      obtain ⟨rfl, -⟩ := List.cons.inj (texts : '-' :: _ = c' :: rest')
      exact absurd isDigit' (by decide)
    · exact ⟨rfl, by simpa [sign, sign'] using texts⟩
  refine eq_of_shortestValue isFinite isFinite' parts.1 ?_
  rw [← writes.textValue_dropPointZero, parts.2, writes'.textValue_dropPointZero]

/-- The text of a finite double begins with a digit or a sign, and has no characters
but those of numbers. -/
theorem shownNumber_parts {x : Float} (isFinite : (Magnitude.ofFloat x).IsFinite) :
    ∃ c rest, (Value.shownNumber x).toList = c :: rest ∧ (c.isDigit = true ∨ c = '-') ∧
      ∀ d ∈ c :: rest, IsPart d := by
  obtain ⟨c, rest, kept, isDigit, parts⟩ :=
    (Value.numberLayout.writes_magnitude isFinite).kept
  rw [shownNumber_eq isFinite, kept]
  cases signBit x with
  | false => exact ⟨c, rest, rfl, Or.inl isDigit, parts⟩
  | true =>
      exact ⟨'-', c :: rest, rfl, Or.inr rfl,
        List.forall_mem_cons.mpr ⟨Or.inr (by decide), parts⟩⟩

/-- There is a digit in the text of a finite double, also if it begins with a sign. -/
theorem exists_digit_shownNumber {x : Float} (isFinite : (Magnitude.ofFloat x).IsFinite) :
    ∃ c ∈ (Value.shownNumber x).toList, c.isDigit = true := by
  obtain ⟨c, rest, kept, isDigit, -⟩ := (Value.numberLayout.writes_magnitude isFinite).kept
  rw [shownNumber_eq isFinite, kept]
  exact ⟨c, List.mem_append_right _ List.mem_cons_self, isDigit⟩

end TreeWalker.Decimal
