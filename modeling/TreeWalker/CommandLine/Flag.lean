import TreeWalker.Text.Digit

/-!
# Flags

A flag is written in full, or as a beginning of its long form that no other flag
shares.  Whatever follows an equals sign, or the letter of a short form, is given
to the flag as a value; no flag takes one, but letters after a short form may be
short forms themselves.

An argument that does not begin with a dash is no flag.  Neither is a dash
alone, a negative number, or text with a blank in it that no flag matches.
-/

namespace TreeWalker.CommandLine

/-- The flags of the command line. -/
inductive Flag where
  | help
  | interactive
  | parse
  | rpn
  | debug
  | noColor
  | version
deriving DecidableEq, Repr

namespace Flag

/-- All spellings of all flags. -/
def spellings : List (String × Flag) :=
  [("-h", help), ("--help", help), ("-i", interactive), ("--interactive", interactive),
    ("--parse", parse), ("--rpn", rpn), ("--debug", debug), ("--no-color", noColor),
    ("--version", version)]

/-- A flag by all its spellings. -/
def title (flag : Flag) : String :=
  String.intercalate "/" ((spellings.filter fun spelling => spelling.2 == flag).map (·.1))

/-- The flag with a given spelling. -/
def ofSpelling? (text : List Char) : Option Flag :=
  (spellings.find? fun spelling => spelling.1.toList == text).map (·.2)

/-- Spellings that begin with a given text. -/
def beginningWith (text : List Char) : List (String × Flag) :=
  spellings.filter fun spelling => text.isPrefixOf spelling.1.toList

end Flag

/-- Text before the first equals sign, and the text after it if there is one. -/
def splitEquals (text : List Char) : List Char × Option (List Char) :=
  let front := text.takeWhile (· ≠ '=')
  match text.drop front.length with
  | [] => (front, none)
  | _ :: value => (front, some value)

/-- Whether text is a negative number, in digits of any script.  A line feed at
the end does not matter. -/
def isNegativeNumber (text : List Char) : Bool :=
  match text with
  | '-' :: number =>
    let number := if number.getLast? = some '\n' then number.dropLast else number
    let whole := number.takeWhile Text.isDecimalDigit
    match number.drop whole.length with
    | [] => !whole.isEmpty
    | '.' :: fraction => !fraction.isEmpty && fraction.all Text.isDecimalDigit
    | _ => false
  | _ => false

/-- What an argument is, taken by itself.  A flag in its short form may be
followed by more letters. -/
inductive Argument where
  | plain
  | flag (flag : Flag) (short : Bool) (value : Option (List Char))
  | ambiguous (candidates : List String)
  | unknown
deriving DecidableEq, Repr

namespace Argument

/-- What text is that no flag matches. -/
def unmatched (text : List Char) : Argument :=
  if isNegativeNumber text || text.contains ' ' then plain else unknown

/-- What text is that begins with two dashes and is no spelling of a flag. -/
def ofLong (text : List Char) : Argument :=
  let (front, value) := splitEquals text
  match Flag.beginningWith front with
  | [] => unmatched text
  | [(_, found)] => flag found false value
  | candidates => ambiguous (candidates.map (·.1))

/-- What text is that begins with one dash and is no spelling of a flag. -/
def ofShort (text : List Char) : Argument :=
  match Flag.ofSpelling? (text.take 2) with
  | some found => flag found true (some (text.drop 2))
  | none => unmatched text

/-- What text with a dash in front is. -/
def ofDashed (text : List Char) : Argument :=
  let short := text.take 2 != ['-', '-']
  match Flag.ofSpelling? text with
  | some found => flag found short none
  | none =>
    if text.length = 1 then plain
    else
      match splitEquals text with
      | (front, some value) =>
        match Flag.ofSpelling? front with
        | some found => flag found short (some value)
        | none => if short then ofShort text else ofLong text
      | _ => if short then ofShort text else ofLong text

/-- What an argument is. -/
def of (text : String) : Argument :=
  match text.toList with
  | '-' :: rest => ofDashed ('-' :: rest)
  | _ => plain

end Argument

/-- Flags that a flag in its short form and the letters after it stand for.  On
failure, the last flag read and the text that it does not take. -/
def unfoldLetters (flag : Flag) : List Char → Except (Flag × List Char) (List Flag)
  | [] => .error (flag, [])
  | letter :: letters =>
    match Flag.ofSpelling? ['-', letter] with
    | none => .error (flag, letter :: letters)
    | some next =>
      if letters.isEmpty then .ok [flag, next]
      else (unfoldLetters next letters).map (flag :: ·)

/-- Flags that one argument stands for.  On failure, the flag that was given a
value, and the value. -/
def unfold (flag : Flag) (short : Bool) :
    Option (List Char) → Except (Flag × List Char) (List Flag)
  | none => .ok [flag]
  | some value => if short then unfoldLetters flag value else .error (flag, value)

end TreeWalker.CommandLine
