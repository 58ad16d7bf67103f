import TreeWalker.Grammar.Program
import TreeWalker.Lexical.Scan

/-!
# Reading source text

A source is scanned and then parsed, whatever the scanner had to complain about.
It is clean if neither found a problem, and only then is it run.
-/

namespace TreeWalker

/-- What reading a source gave. -/
structure Reading where
  scan : Lexical.Scan
  parsed : Grammar.Parsed (List Node)

namespace Reading

/-- Read a source, with so many levels for what is nested in it. -/
def ofSource (levels : Nat) (source : List Char) : Reading :=
  let scan := Lexical.Scan.ofText source
  ⟨scan, Grammar.Parsed.ofProgram levels scan.tokens⟩

/-- The statements read. -/
def statements (reading : Reading) : List Node :=
  reading.parsed.result

/-- Problems of the source, those of scanning first. -/
def diagnostics (reading : Reading) : List Diagnostic :=
  reading.scan.diagnostics ++ reading.parsed.diagnostics

/-- Whether reading found no problem. -/
def isClean (reading : Reading) : Bool :=
  reading.scan.diagnostics.isEmpty && reading.parsed.diagnostics.isEmpty

end Reading

/-- One line that counts the tokens and the problems of a scan. -/
def Lexical.Scan.summary (scan : Lexical.Scan) : String :=
  "Scanned " ++ toString scan.tokens.length ++ " tokens (" ++
    toString scan.diagnostics.length ++ " errors)"

/-- One line that counts the statements and the problems of a program. -/
def Grammar.Parsed.summary (parsed : Grammar.Parsed (List Node)) : String :=
  "Parsed " ++ toString parsed.result.length ++ " statements (" ++
    toString parsed.diagnostics.length ++ " errors)"

/-- Lines that a trace shows for a reading. -/
def Reading.trace (reading : Reading) : List String :=
  [reading.scan.summary, reading.parsed.summary]

end TreeWalker
