import TreeWalker.Diagnostic
import TreeWalker.Lexical.Segment

/-!
# Scanned source

Scanning never fails: what is no token is complained about and left out.  Lines are
counted on the way: a line feed between two tokens, in a string or in a block comment
begins a new one.  Every token and every complaint is on the line on which its segment
ends.  A token for the end of the source comes last.
-/

namespace TreeWalker.Lexical

/-- Tokens of a source and the problems met on the way, both in source order. -/
structure Scan where
  tokens : List Token
  diagnostics : List Diagnostic
deriving DecidableEq

/-! ## Lines -/

/-- The line to which a string comes that has come to the given line: up to its quote, each
line feed begins a new one. -/
def stringLine (line : Nat) : List Char → Nat
  | [] => line
  | c :: text => if c = '"' then line else stringLine (if c = '\n' then line + 1 else line) text

/-- The line to which a block comment comes that has come to the given line, with so many
comments inside it that are still open. -/
def commentLine (inner line : Nat) : List Char → Nat
  | [] => line
  | '/' :: '*' :: text => commentLine (inner + 1) line text
  | '*' :: '/' :: text =>
    match inner with
    | 0 => line
    | inner + 1 => commentLine inner line text
  | c :: text => commentLine inner (if c = '\n' then line + 1 else line) text

/-- The line on which the first segment of a text ends, if it begins on the given line. -/
def lineAfter (line : Nat) : (c : Char) → List Char → Nat
  | '\n', _ => line + 1
  | '"', text => stringLine line text
  | '/', '*' :: comment => commentLine 0 line comment
  | _, _ => line

/-- Segments of a text that begins on the given line, at most `fuel` of them, with the lines
on which they end, and the line on which the last of them ends. -/
def placeAtMost : (fuel line : Nat) → List Char → List (Segment × Nat) × Nat
  | _, line, [] => ([], line)
  | 0, line, _ :: _ => ([], line)
  | fuel + 1, line, c :: text =>
    let lead := Lead.of c text
    let after := lineAfter line c text
    let others := placeAtMost fuel after lead.2
    ((lead.1, after) :: others.1, others.2)

/-- All segments of a text with the lines on which they end, and the line on which the text
ends. -/
def place (text : List Char) : List (Segment × Nat) × Nat :=
  placeAtMost text.length 1 text

/-! ## Tokens and complaints -/

namespace Segment

/-- The token of a segment that ends on the given line. -/
def token? (segment : Segment) (line : Nat) : Option Token :=
  match segment.shape with
  | .token kind literal => some ⟨kind, String.ofList segment.text, literal, line⟩
  | _ => none

end Segment

namespace Shape

/-- What is wrong with a segment of this shape, if anything is. -/
def complaint? : Shape → Option String
  | token _ _ | gap => none
  | unexpected => some "Unexpected character."
  | openString => some "Unterminated string."
  | openComment => some "Unterminated block comment."

end Shape

namespace Segment

/-- The diagnostic for a segment that ends on the given line. -/
def diagnostic? (segment : Segment) (line : Nat) : Option Diagnostic :=
  segment.shape.complaint?.map fun message => ⟨.scan, line, "", message⟩

end Segment

/-- The token for the end of a source. -/
def endToken (line : Nat) : Token :=
  ⟨.eof, "", .nil, line⟩

/-- Scan a text. -/
def Scan.ofText (text : List Char) : Scan :=
  let (segments, lastLine) := place text
  { tokens :=
      segments.filterMap (fun segment => segment.1.token? segment.2) ++ [endToken lastLine]
    diagnostics := segments.filterMap fun segment => segment.1.diagnostic? segment.2 }

/-- Offset at which the last segment of a text begins; zero for empty text. -/
def lastStart (text : List Char) : Nat :=
  match (cut text).getLast? with
  | some segment => text.length - segment.text.length
  | none => 0

end TreeWalker.Lexical
