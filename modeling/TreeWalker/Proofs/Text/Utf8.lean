import Mathlib.Data.List.Basic
import Mathlib.Data.List.Forall2
import TreeWalker.Text.Utf8

/-!
# Texts in UTF-8

A byte sequence is decoded exactly if it is the encoding of a text, and then to that
text.  Between the decoder, which takes byte after byte, and the encoder, which divides
a code point into its digits, stands the table of well-formed sequences.
-/

namespace TreeWalker.Text

/-! ## Well-formed sequences -/

/-- A byte that may continue a sequence. -/
def IsTail (byte : UInt8) : Prop :=
  0x80 ≤ byte.toNat ∧ byte.toNat ≤ 0xBF

/-- Digit to base 64 that such a byte carries. -/
def tailDigit (byte : UInt8) : Nat :=
  byte.toNat - 0x80

/-- What is known of a byte that continues a sequence, by its digit. -/
theorem IsTail.toNat_eq {byte : UInt8} (tail : IsTail byte) :
    byte.toNat = tailDigit byte + 128 ∧ tailDigit byte < 64 := by
  unfold IsTail at tail
  unfold tailDigit
  omega

/-- The table of well-formed sequences, with the code point that each of them is for.
The second byte is bounded more closely where the sequence would be overlong, would be
for a surrogate or would go beyond the last code point. -/
inductive Encodes : List UInt8 → Nat → Prop where
  | one {a : UInt8} (high : a.toNat ≤ 0x7F) : Encodes [a] a.toNat
  | two {a b : UInt8} (low : 0xC2 ≤ a.toNat) (high : a.toNat ≤ 0xDF) (second : IsTail b) :
      Encodes [a, b] (64 * (a.toNat - 0xC0) + tailDigit b)
  | three {a b c : UInt8} (low : 0xE0 ≤ a.toNat) (high : a.toNat ≤ 0xEF) (second : IsTail b)
      (third : IsTail c) (shortest : a.toNat = 0xE0 → 0xA0 ≤ b.toNat)
      (scalar : a.toNat = 0xED → b.toNat ≤ 0x9F) :
      Encodes [a, b, c] (64 * (64 * (a.toNat - 0xE0) + tailDigit b) + tailDigit c)
  | four {a b c d : UInt8} (low : 0xF0 ≤ a.toNat) (high : a.toNat ≤ 0xF4) (second : IsTail b)
      (third : IsTail c) (fourth : IsTail d) (shortest : a.toNat = 0xF0 → 0x90 ≤ b.toNat)
      (bounded : a.toNat = 0xF4 → b.toNat ≤ 0x8F) :
      Encodes [a, b, c, d]
        (64 * (64 * (64 * (a.toNat - 0xF0) + tailDigit b) + tailDigit c) + tailDigit d)

/-! ## The encoder -/

theorem toNat_byte {n : Nat} (small : n < 256) : (UInt8.ofNat n).toNat = n := by
  rw [UInt8.toNat_ofNat', Nat.mod_eq_of_lt small]

theorem byte_eq {n : Nat} {byte : UInt8} (same : n = byte.toNat) : UInt8.ofNat n = byte := by
  rw [same, UInt8.ofNat_toNat]

theorem isTail_byte {digit : Nat} (small : digit < 64) : IsTail (UInt8.ofNat (digit + 128)) := by
  have same : (UInt8.ofNat (digit + 128)).toNat = digit + 128 := toNat_byte (by omega)
  unfold IsTail
  omega

theorem tailDigit_byte {digit : Nat} (small : digit < 64) :
    tailDigit (UInt8.ofNat (digit + 128)) = digit := by
  have same : (UInt8.ofNat (digit + 128)).toNat = digit + 128 := toNat_byte (by omega)
  unfold tailDigit
  omega

namespace Encodes

variable {a b c d : Nat}

theorem of_one (small : a ≤ 0x7F) : Encodes [UInt8.ofNat a] a := by
  have head : (UInt8.ofNat a).toNat = a := toNat_byte (by omega)
  have encodes := one (a := UInt8.ofNat a) (by omega)
  rwa [head] at encodes

theorem of_two (low : 2 ≤ a) (high : a < 32) (second : b < 64) :
    Encodes [UInt8.ofNat (a + 192), UInt8.ofNat (b + 128)] (64 * a + b) := by
  have head : (UInt8.ofNat (a + 192)).toNat = a + 192 := toNat_byte (by omega)
  have encodes := two (a := UInt8.ofNat (a + 192)) (by omega) (by omega) (isTail_byte second)
  rwa [head, tailDigit_byte second, Nat.add_sub_cancel] at encodes

theorem of_three (high : a < 16) (second : b < 64) (third : c < 64) (shortest : a = 0 → 32 ≤ b)
    (scalar : a = 13 → b < 32) :
    Encodes [UInt8.ofNat (a + 224), UInt8.ofNat (b + 128), UInt8.ofNat (c + 128)]
      (64 * (64 * a + b) + c) := by
  have head : (UInt8.ofNat (a + 224)).toNat = a + 224 := toNat_byte (by omega)
  have next : (UInt8.ofNat (b + 128)).toNat = b + 128 := toNat_byte (by omega)
  have encodes := three (a := UInt8.ofNat (a + 224)) (by omega) (by omega) (isTail_byte second)
    (isTail_byte third) (by omega) (by omega)
  rwa [head, tailDigit_byte second, tailDigit_byte third, Nat.add_sub_cancel] at encodes

theorem of_four (high : a ≤ 4) (second : b < 64) (third : c < 64) (fourth : d < 64)
    (shortest : a = 0 → 16 ≤ b) (bounded : a = 4 → b < 16) :
    Encodes [UInt8.ofNat (a + 240), UInt8.ofNat (b + 128), UInt8.ofNat (c + 128),
      UInt8.ofNat (d + 128)] (64 * (64 * (64 * a + b) + c) + d) := by
  have head : (UInt8.ofNat (a + 240)).toNat = a + 240 := toNat_byte (by omega)
  have next : (UInt8.ofNat (b + 128)).toNat = b + 128 := toNat_byte (by omega)
  have encodes := four (a := UInt8.ofNat (a + 240)) (by omega) (by omega) (isTail_byte second)
    (isTail_byte third) (isTail_byte fourth) (by omega) (by omega)
  rwa [head, tailDigit_byte second, tailDigit_byte third, tailDigit_byte fourth,
    Nat.add_sub_cancel] at encodes

end Encodes

/-- A character is encoded by a sequence of the table. -/
theorem encodes_utf8EncodeChar (c : Char) : Encodes (String.utf8EncodeChar c) c.toNat := by
  have valid : c.toNat < 0xD800 ∨ 0xDFFF < c.toNat ∧ c.toNat < 0x110000 := c.valid
  unfold String.utf8EncodeChar
  simp only [show c.val.toNat = c.toNat from rfl]
  generalize c.toNat = point at valid
  split_ifs with isOne isTwo isThree
  · exact .of_one isOne
  · have digits : point = 64 * (point / 64 % 32) + point % 64 := by omega
    have encodes := Encodes.of_two (a := point / 64 % 32) (b := point % 64) (by omega) (by omega)
      (by omega)
    rwa [← digits] at encodes
  · have digits : point =
        64 * (64 * (point / 4096 % 16) + point / 64 % 64) + point % 64 := by omega
    have encodes := Encodes.of_three (a := point / 4096 % 16) (b := point / 64 % 64)
      (c := point % 64) (by omega) (by omega) (by omega) (by omega) (by omega)
    rwa [← digits] at encodes
  · have digits : point = 64 * (64 * (64 * (point / 262144 % 8) + point / 4096 % 64) +
        point / 64 % 64) + point % 64 := by omega
    have encodes := Encodes.of_four (a := point / 262144 % 8) (b := point / 4096 % 64)
      (c := point / 64 % 64) (d := point % 64) (by omega) (by omega) (by omega) (by omega)
      (by omega) (by omega)
    rwa [← digits] at encodes

/-- The sequences of the table are for code points of characters. -/
theorem Encodes.isValidChar {bytes : List UInt8} {point : Nat} (encodes : Encodes bytes point) :
    point.isValidChar := by
  unfold Nat.isValidChar
  cases encodes with
  | one high => omega
  | two low high second =>
      obtain ⟨_, _⟩ := second.toNat_eq
      omega
  | three low high second third shortest scalar =>
      obtain ⟨_, _⟩ := second.toNat_eq
      obtain ⟨_, _⟩ := third.toNat_eq
      omega
  | four low high second third fourth shortest bounded =>
      obtain ⟨_, _⟩ := second.toNat_eq
      obtain ⟨_, _⟩ := third.toNat_eq
      obtain ⟨_, _⟩ := fourth.toNat_eq
      omega

/-- The sequences of the table are the encodings of the characters that they are for. -/
theorem Encodes.utf8EncodeChar_eq {bytes : List UInt8} {point : Nat}
    (encodes : Encodes bytes point) : String.utf8EncodeChar (Char.ofNat point) = bytes := by
  have same : (Char.ofNat point).val.toNat = point := by
    rw [Char.ofNat, dif_pos encodes.isValidChar]
    rfl
  unfold String.utf8EncodeChar
  simp only [same]
  cases encodes with
  | one high => rw [if_pos high, UInt8.ofNat_toNat]
  | two low high second =>
      obtain ⟨_, _⟩ := second.toNat_eq
      rw [if_neg (by omega), if_pos (by omega)]
      simp only [List.cons.injEq, and_true]
      refine ⟨byte_eq ?_, byte_eq ?_⟩ <;> omega
  | three low high second third shortest scalar =>
      obtain ⟨_, _⟩ := second.toNat_eq
      obtain ⟨_, _⟩ := third.toNat_eq
      rw [if_neg (by omega), if_neg (by omega), if_pos (by omega)]
      simp only [List.cons.injEq, and_true]
      refine ⟨byte_eq ?_, byte_eq ?_, byte_eq ?_⟩ <;> omega
  | four low high second third fourth shortest bounded =>
      obtain ⟨_, _⟩ := second.toNat_eq
      obtain ⟨_, _⟩ := third.toNat_eq
      obtain ⟨_, _⟩ := fourth.toNat_eq
      rw [if_neg (by omega), if_neg (by omega), if_neg (by omega)]
      simp only [List.cons.injEq, and_true]
      refine ⟨byte_eq ?_, byte_eq ?_, byte_eq ?_, byte_eq ?_⟩ <;> omega

/-! ## The decoder -/

theorem ByteRange.contains_iff {range : ByteRange} {byte : UInt8} :
    range.contains byte = true ↔
      range.first.toNat ≤ byte.toNat ∧ byte.toNat ≤ range.last.toNat := by
  simp only [contains, Bool.and_eq_true, decide_eq_true_eq, UInt8.le_iff_toNat_le]

/-- The range of the second byte of three. -/
def secondOfThree (first : Nat) : ByteRange :=
  if first = 0xE0 then ⟨0xA0, 0xBF⟩ else if first = 0xED then ⟨0x80, 0x9F⟩ else .continuation

/-- The range of the second byte of four. -/
def secondOfFour (first : Nat) : ByteRange :=
  if first = 0xF0 then ⟨0x90, 0xBF⟩ else if first = 0xF4 then ⟨0x80, 0x8F⟩ else .continuation

theorem contains_continuation {byte : UInt8} :
    ByteRange.continuation.contains byte = true ↔ IsTail byte :=
  ByteRange.contains_iff

theorem contains_secondOfThree {first : Nat} {byte : UInt8} :
    (secondOfThree first).contains byte = true ↔
      IsTail byte ∧ (first = 0xE0 → 0xA0 ≤ byte.toNat) ∧ (first = 0xED → byte.toNat ≤ 0x9F) := by
  unfold secondOfThree IsTail
  split_ifs <;> simp only [ByteRange.contains_iff, ByteRange.continuation, UInt8.reduceToNat] <;>
    omega

theorem contains_secondOfFour {first : Nat} {byte : UInt8} :
    (secondOfFour first).contains byte = true ↔
      IsTail byte ∧ (first = 0xF0 → 0x90 ≤ byte.toNat) ∧ (first = 0xF4 → byte.toNat ≤ 0x8F) := by
  unfold secondOfFour IsTail
  split_ifs <;> simp only [ByteRange.contains_iff, ByteRange.continuation, UInt8.reduceToNat] <;>
    omega

/-- What a byte announces, by the row of the table that it begins. -/
theorem announced?_eq (byte : UInt8) :
    announced? byte =
      if byte.toNat ≤ 0x7F then some (byte.toNat, [])
      else if byte.toNat ≤ 0xC1 then none
      else if byte.toNat ≤ 0xDF then some (byte.toNat - 0xC0, [.continuation])
      else if byte.toNat ≤ 0xEF then
        some (byte.toNat - 0xE0, [secondOfThree byte.toNat, .continuation])
      else if byte.toNat ≤ 0xF4 then
        some (byte.toNat - 0xF0, [secondOfFour byte.toNat, .continuation, .continuation])
      else none := by
  simp only [announced?, secondOfThree, secondOfFour, UInt8.le_iff_toNat_le, ← UInt8.toNat_inj,
    UInt8.reduceToNat]
  -- The rows of one and of two bytes are tested alike on both sides; for the others the
  -- decoder looks first for the bytes that bound the second one.
  refine ite_congr rfl (fun _ => rfl) fun _ => ite_congr rfl (fun _ => rfl) fun _ =>
    ite_congr rfl (fun _ => rfl) fun _ => ?_
  by_cases isThree : byte.toNat ≤ 0xEF
  · rw [if_pos isThree, if_pos isThree]
    split_ifs with overlong
    · rw [overlong]
    · rfl
    · rfl
  · rw [if_neg (by omega), if_neg (by omega), if_neg isThree, if_neg isThree]
    split_ifs with overlong <;> first | omega | skip
    · rw [overlong]
    · rfl
    · rfl
    · rfl

theorem continueWith_cons (point taken : Nat) (range : ByteRange) (ranges : List ByteRange)
    (byte : UInt8) (bytes : List UInt8) :
    continueWith point taken (range :: ranges) (byte :: bytes) =
      if range.contains byte then
        continueWith (64 * point + tailDigit byte) (taken + 1) ranges bytes
      else .error (.invalidContinuation, taken) :=
  rfl

/-- Bytes continue a sequence if each of them lies in its range, and then their digits
are those of the code point. -/
theorem continueWith_eq_ok_iff {point taken result : Nat} {ranges : List ByteRange}
    {bytes rest : List UInt8} :
    continueWith point taken ranges bytes = .ok (result, rest) ↔
      ∃ more, bytes = more ++ rest ∧
        List.Forall₂ (fun range byte => ByteRange.contains range byte = true) ranges more ∧
        result = more.foldl (fun point byte => 64 * point + tailDigit byte) point := by
  induction ranges generalizing point taken bytes with
  | nil =>
      simp only [continueWith, List.forall₂_nil_left_iff, Except.ok.injEq, Prod.mk.injEq]
      constructor
      · rintro ⟨rfl, rfl⟩
        exact ⟨[], rfl, rfl, rfl⟩
      · rintro ⟨_, rfl, rfl, rfl⟩
        exact ⟨rfl, rfl⟩
  | cons range ranges inductionHypothesis =>
      simp only [List.forall₂_cons_left_iff]
      cases bytes with
      | nil =>
          simp only [continueWith, reduceCtorEq, false_iff]
          rintro ⟨_, split, ⟨_, _, _, _, rfl⟩, _⟩
          cases split
      | cons byte bytes =>
          rw [continueWith_cons]
          split
          · next within =>
              rw [inductionHypothesis]
              constructor
              · rintro ⟨more, rfl, others, rfl⟩
                exact ⟨byte :: more, rfl, ⟨byte, more, within, others, rfl⟩, List.foldl_cons.symm⟩
              · rintro ⟨_, split, ⟨_, more, _, others, rfl⟩, rfl⟩
                rcases List.cons.inj split with ⟨rfl, rfl⟩
                exact ⟨more, rfl, others, List.foldl_cons⟩
          · next outside =>
              simp only [reduceCtorEq, false_iff]
              rintro ⟨_, split, ⟨_, more, within, _, rfl⟩, _⟩
              rcases List.cons.inj split with ⟨rfl, _⟩
              exact outside within

/-- What the decoder takes for a character is a sequence of the table. -/
theorem encodes_of_continueWith {byte : UInt8} {share point : Nat} {ranges : List ByteRange}
    {bytes rest : List UInt8} (announced : announced? byte = some (share, ranges))
    (continued : continueWith share 1 ranges bytes = .ok (point, rest)) :
    ∃ more, bytes = more ++ rest ∧ Encodes (byte :: more) point := by
  rcases continueWith_eq_ok_iff.mp continued with ⟨more, split, within, rfl⟩
  refine ⟨more, split, ?_⟩
  rw [announced?_eq] at announced
  split_ifs at announced with isOne none isTwo isThree isFour
  all_goals
    simp only [Option.some.injEq, Prod.mk.injEq] at announced
    obtain ⟨rfl, rfl⟩ := announced
  · cases within
    exact .one isOne
  · rcases within with _ | ⟨second, ⟨⟩⟩
    exact .two (by omega) isTwo (contains_continuation.mp second)
  · rcases within with _ | ⟨second, _ | ⟨third, ⟨⟩⟩⟩
    rcases contains_secondOfThree.mp second with ⟨second, shortest, scalar⟩
    exact .three (by omega) isThree second (contains_continuation.mp third) shortest scalar
  · rcases within with _ | ⟨second, _ | ⟨third, _ | ⟨fourth, ⟨⟩⟩⟩⟩
    rcases contains_secondOfFour.mp second with ⟨second, shortest, bounded⟩
    exact .four (by omega) isFour second (contains_continuation.mp third)
      (contains_continuation.mp fourth) shortest bounded

/-- The decoder takes a sequence of the table for its character, whatever follows. -/
theorem Encodes.continueWith_eq_ok {byte : UInt8} {more : List UInt8} {point : Nat}
    (encodes : Encodes (byte :: more) point) :
    ∃ share ranges, announced? byte = some (share, ranges) ∧
      ∀ rest, continueWith share 1 ranges (more ++ rest) = .ok (point, rest) := by
  simp only [continueWith_eq_ok_iff, announced?_eq]
  cases encodes with
  | one high =>
      refine ⟨_, _, if_pos high, fun rest => ⟨[], rfl, .nil, rfl⟩⟩
  | @two a b low high second =>
      rw [if_neg (by omega), if_neg (by omega), if_pos high]
      refine ⟨_, _, rfl, fun rest => ⟨[b], rfl, ?_, rfl⟩⟩
      exact .cons (contains_continuation.mpr second) .nil
  | @three a b c low high second third shortest scalar =>
      rw [if_neg (by omega), if_neg (by omega), if_neg (by omega), if_pos high]
      refine ⟨_, _, rfl, fun rest => ⟨[b, c], rfl, ?_, rfl⟩⟩
      exact .cons (contains_secondOfThree.mpr ⟨second, shortest, scalar⟩)
        (.cons (contains_continuation.mpr third) .nil)
  | @four a b c d low high second third fourth shortest bounded =>
      rw [if_neg (by omega), if_neg (by omega), if_neg (by omega), if_neg (by omega), if_pos high]
      refine ⟨_, _, rfl, fun rest => ⟨[b, c, d], rfl, ?_, rfl⟩⟩
      exact .cons (contains_secondOfFour.mpr ⟨second, shortest, bounded⟩)
        (.cons (contains_continuation.mpr third) (.cons (contains_continuation.mpr fourth) .nil))

/-! ## Texts -/

/-- One character of a text: the decoder takes its encoding and goes on behind it. -/
theorem decodeFrom_utf8EncodeChar (fuel position : Nat) (c : Char) (rest : List UInt8) :
    ∃ next, decodeFrom (fuel + 1) position (String.utf8EncodeChar c ++ rest) =
      (decodeFrom fuel next rest).map (c :: ·) := by
  have encodes := encodes_utf8EncodeChar c
  obtain ⟨byte, more, same⟩ := List.exists_cons_of_ne_nil (l := String.utf8EncodeChar c)
    String.utf8EncodeChar_ne_nil
  rw [same] at encodes ⊢
  obtain ⟨share, ranges, announced, continued⟩ := encodes.continueWith_eq_ok
  refine ⟨position + 1 + ranges.length, ?_⟩
  simp only [List.cons_append, decodeFrom, announced, continued rest, Char.ofNat_toNat]

/-- A result begins with a character whose encoding the decoder has taken. -/
theorem exists_of_decodeFrom_cons {fuel position : Nat} {byte : UInt8} {bytes : List UInt8}
    {text : List Char} (decoded : decodeFrom (fuel + 1) position (byte :: bytes) = .ok text) :
    ∃ c others next rest, text = c :: others ∧ byte :: bytes = String.utf8EncodeChar c ++ rest ∧
      rest.length ≤ bytes.length ∧ decodeFrom fuel next rest = .ok others := by
  rw [decodeFrom] at decoded
  split at decoded
  · cases decoded
  · next share ranges announced =>
      split at decoded
      · cases decoded
      · next point rest continued =>
          obtain ⟨more, rfl, encodes⟩ := encodes_of_continueWith announced continued
          cases onward : decodeFrom fuel (position + 1 + ranges.length) rest with
          | error fault =>
              rw [onward] at decoded
              cases decoded
          | ok others =>
              rw [onward] at decoded
              refine ⟨Char.ofNat point, others, _, rest, (Except.ok.inj decoded).symm, ?_, ?_,
                onward⟩
              · rw [encodes.utf8EncodeChar_eq, List.cons_append]
              · simp only [List.length_append, Nat.le_add_left]

/-- With enough fuel, bytes are decoded to a text exactly if they are its encoding. -/
theorem decodeFrom_eq_ok_iff {fuel position : Nat} {bytes : List UInt8} {text : List Char}
    (enough : bytes.length ≤ fuel) :
    decodeFrom fuel position bytes = .ok text ↔ bytes = text.flatMap String.utf8EncodeChar := by
  constructor
  · -- The decoder spends one unit of fuel on a character, so the induction is on the fuel.
    intro decoded
    induction fuel generalizing position bytes text with
    | zero =>
        have empty : bytes = [] := List.eq_nil_of_length_eq_zero (Nat.le_zero.mp enough)
        subst empty
        cases decoded
        rfl
    | succ fuel inductionHypothesis =>
        cases bytes with
        | nil =>
            cases decoded
            rfl
        | cons byte bytes =>
            obtain ⟨c, others, next, rest, rfl, split, shorter, onward⟩ :=
              exists_of_decodeFrom_cons decoded
            rw [List.length_cons] at enough
            rw [split, List.flatMap_cons, inductionHypothesis (by omega) onward]
  · -- No character is encoded by nothing, so there is fuel left for each of them.
    rintro rfl
    induction text generalizing fuel position with
    | nil => cases fuel <;> rfl
    | cons c others inductionHypothesis =>
        rw [List.flatMap_cons, List.length_append] at enough
        have positive : 0 < (String.utf8EncodeChar c).length :=
          List.length_pos_of_ne_nil String.utf8EncodeChar_ne_nil
        obtain ⟨fuel, rfl⟩ := Nat.exists_eq_succ_of_ne_zero (n := fuel) (by omega)
        obtain ⟨next, goesOn⟩ := decodeFrom_utf8EncodeChar fuel position c
          (others.flatMap String.utf8EncodeChar)
        rw [List.flatMap_cons, goesOn, inductionHypothesis (by omega)]
        rfl

/-- Bytes are decoded to a text exactly if they are its encoding. -/
theorem decodeUtf8_eq_ok_iff {bytes : List UInt8} {text : List Char} :
    decodeUtf8 bytes = .ok text ↔ bytes = text.flatMap String.utf8EncodeChar :=
  decodeFrom_eq_ok_iff (Nat.le_refl _)

end TreeWalker.Text
