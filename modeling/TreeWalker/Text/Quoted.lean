import TreeWalker.Text.Printable

/-!
# Quoted text

Messages show a name that was given from outside between quotes, on one line and
in printable characters only.  Single quotes are used unless the name holds a
single quote and no double quote.  Inside, the quote in use and the backslash
take a backslash in front, and characters that are not printable are written by
their code points.
-/

namespace TreeWalker.Text

/-- The quote to put around a text. -/
def chooseQuote (text : List Char) : Char :=
  if text.contains '\'' && !text.contains '"' then '"' else '\''

/-- A number in hexadecimal, filled up with zeros to the given width. -/
def hexDigits (width number : Nat) : List Char :=
  (Nat.toDigits 16 number).leftpad width '0'

/-- An unprintable character by its code point, in the shortest of the three
forms that holds it. -/
def escapePoint (point : Nat) : List Char :=
  if point ≤ 0xFF then '\\' :: 'x' :: hexDigits 2 point
  else if point ≤ 0xFFFF then '\\' :: 'u' :: hexDigits 4 point
  else '\\' :: 'U' :: hexDigits 8 point

/-- One character inside the given quotes. -/
def escape (quote c : Char) : List Char :=
  if c = quote ∨ c = '\\' then ['\\', c]
  else if c = '\n' then ['\\', 'n']
  else if c = '\r' then ['\\', 'r']
  else if c = '\t' then ['\\', 't']
  else if isPrintable c then [c]
  else escapePoint c.toNat

/-- Text between quotes. -/
def quoted (text : String) : String :=
  let quote := chooseQuote text.toList
  String.ofList (quote :: (text.toList.flatMap (escape quote) ++ [quote]))

end TreeWalker.Text
