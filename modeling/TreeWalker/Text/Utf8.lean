/-!
# Strict decoding of UTF-8

A sequence of bytes is decoded by the well-formed forms of the standard only:
overlong forms, surrogates and code points above `10FFFF` are refused at their
second byte.  A `Fault` says where decoding stops and why, and how many bytes
are to blame.
-/

namespace TreeWalker.Text

/-- Why a byte sequence is not well-formed. -/
inductive Utf8Reason where
  | invalidStart
  | invalidContinuation
  | unexpectedEnd
deriving DecidableEq, Repr

namespace Utf8Reason

/-- Wording of a reason. -/
def message : Utf8Reason → String
  | .invalidStart => "invalid start byte"
  | .invalidContinuation => "invalid continuation byte"
  | .unexpectedEnd => "unexpected end of data"

end Utf8Reason

/-- The bytes from `position` on, `extent` in number and at least one, that
cannot be decoded. -/
structure Utf8Fault where
  position : Nat
  extent : Nat
  firstByte : UInt8
  reason : Utf8Reason
deriving DecidableEq, Repr

/-- Closed range of byte values. -/
structure ByteRange where
  first : UInt8
  last : UInt8

namespace ByteRange

/-- Whether a byte lies in a range. -/
def contains (range : ByteRange) (byte : UInt8) : Bool :=
  range.first ≤ byte && byte ≤ range.last

/-- The bytes that may continue a sequence. -/
def continuation : ByteRange :=
  ⟨0x80, 0xBF⟩

end ByteRange

/-- What a first byte announces: its share of the code point, and the ranges of
the bytes to follow. -/
def announced? (byte : UInt8) : Option (Nat × List ByteRange) :=
  let share (first : UInt8) : Nat := byte.toNat - first.toNat
  let more := ByteRange.continuation
  if byte ≤ 0x7F then some (byte.toNat, [])
  else if byte ≤ 0xC1 then none
  else if byte ≤ 0xDF then some (share 0xC0, [more])
  else if byte = 0xE0 then some (0, [⟨0xA0, 0xBF⟩, more])
  else if byte = 0xED then some (share 0xE0, [⟨0x80, 0x9F⟩, more])
  else if byte ≤ 0xEF then some (share 0xE0, [more, more])
  else if byte = 0xF0 then some (0, [⟨0x90, 0xBF⟩, more, more])
  else if byte ≤ 0xF3 then some (share 0xF0, [more, more, more])
  else if byte = 0xF4 then some (share 0xF0, [⟨0x80, 0x8F⟩, more, more])
  else none

/-- Decode as many bytes as there are ranges.  The result is the code point and
the bytes left; on a fault, its reason and the number of bytes taken. -/
def continueWith (point taken : Nat) :
    List ByteRange → List UInt8 → Except (Utf8Reason × Nat) (Nat × List UInt8)
  | [], bytes => .ok (point, bytes)
  | _ :: _, [] => .error (.unexpectedEnd, taken)
  | range :: ranges, byte :: bytes =>
    if range.contains byte then
      continueWith (64 * point + (byte.toNat - 0x80)) (taken + 1) ranges bytes
    else
      .error (.invalidContinuation, taken)

/-- Decode bytes that start at the given position, at most `fuel` characters of
them. -/
def decodeFrom : (fuel : Nat) → (position : Nat) → List UInt8 → Except Utf8Fault (List Char)
  | _, _, [] => .ok []
  | 0, _, _ :: _ => .ok []
  | fuel + 1, position, byte :: bytes =>
    match announced? byte with
    | none => .error ⟨position, 1, byte, .invalidStart⟩
    | some (share, ranges) =>
      match continueWith share 1 ranges bytes with
      | .error (reason, taken) => .error ⟨position, taken, byte, reason⟩
      | .ok (point, rest) =>
        (decodeFrom fuel (position + 1 + ranges.length) rest).map (Char.ofNat point :: ·)

/-- The characters written by a byte sequence.  No character takes less than a
byte, so the number of bytes bounds the number of characters. -/
def decodeUtf8 (bytes : List UInt8) : Except Utf8Fault (List Char) :=
  decodeFrom bytes.length 0 bytes

/-- Two lower-case hexadecimal digits. -/
def hexByte (byte : UInt8) : String :=
  String.ofList ((Nat.toDigits 16 byte.toNat).leftpad 2 '0')

namespace Utf8Fault

/-- Wording of a fault: the byte if it is one, else the span of the bytes. -/
def message (fault : Utf8Fault) : String :=
  if fault.extent = 1 then
    "'utf-8' codec can't decode byte 0x" ++ hexByte fault.firstByte ++ " in position " ++
      toString fault.position ++ ": " ++ fault.reason.message
  else
    "'utf-8' codec can't decode bytes in position " ++ toString fault.position ++ "-" ++
      toString (fault.position + fault.extent - 1) ++ ": " ++ fault.reason.message

end Utf8Fault

end TreeWalker.Text
