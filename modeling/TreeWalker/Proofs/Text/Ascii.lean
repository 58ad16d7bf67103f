import TreeWalker.Proofs.Text.Utf8
import TreeWalker.Script.Loading

/-!
# Scripts in seven bits

A file whose characters take a byte each, and which has no carriage returns, is
loaded as it is.
-/

namespace TreeWalker.Text

/-- A character that takes one byte. -/
def IsAscii (c : Char) : Prop :=
  c.toNat < 128

/-- The byte of such a character. -/
def asciiByte (c : Char) : UInt8 :=
  UInt8.ofNat c.toNat

theorem utf8EncodeChar_ascii {c : Char} (ascii : IsAscii c) :
    String.utf8EncodeChar c = [asciiByte c] :=
  if_pos (Nat.le_of_lt_succ ascii)

/-- Bytes of single characters are decoded one by one. -/
theorem decodeUtf8_ascii {text : List Char} (ascii : ∀ c ∈ text, IsAscii c) :
    decodeUtf8 (text.map asciiByte) = .ok text := by
  rw [decodeUtf8_eq_ok_iff, List.map_eq_flatMap]
  exact List.flatMap_congr fun c member => (utf8EncodeChar_ascii (ascii c member)).symm

/-- Text without carriage returns keeps its line ends. -/
theorem normalizeEnds_eq_self {text : List Char} (noReturn : '\r' ∉ text) :
    normalizeEnds text = text := by
  induction text with
  | nil => rfl
  | cons c text inductionHypothesis =>
      obtain ⟨other, others⟩ := List.ne_and_not_mem_of_not_mem_cons noReturn
      rw [normalizeEnds, inductionHypothesis others]
      · exact fun _ same _ => other same.symm
      · exact fun same => other same.symm

end TreeWalker.Text

namespace TreeWalker.Script

open Text

/-- A file in seven bits without carriage returns is its text. -/
theorem text_ascii {characters : List Char} (ascii : ∀ c ∈ characters, IsAscii c)
    (noReturn : '\r' ∉ characters) : text (characters.map asciiByte) = .ok characters := by
  rw [text, decodeUtf8_ascii ascii]
  exact congrArg Except.ok (normalizeEnds_eq_self noReturn)

end TreeWalker.Script
