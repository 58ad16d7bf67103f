import TreeWalker.Text.Blank
import TreeWalker.Text.Lines

/-!
# Diagnostics

A diagnostic is one complaint about a program, made while it is scanned, parsed
or run.  A report writes diagnostics one after the other, in the given colour, and
shows under each complaint about the text the source line that it points at, unless
that line is blank.
-/

namespace TreeWalker

/-- When a problem was found.  Diagnostics made by hand may name other stages;
they are reported as problems of the text. -/
inductive Stage where
  | scan
  | parse
  | runtime
  | other (name : String)
deriving DecidableEq, Repr

namespace Stage

/-- Name of a stage. -/
def name : Stage → String
  | scan => "scan"
  | parse => "parse"
  | runtime => "runtime"
  | other name => name

/-- The stage with a given name. -/
def ofName (name : String) : Stage :=
  ([scan, parse, runtime].find? fun stage => stage.name == name).getD (other name)

end Stage

/-- A complaint about the given line.  The place says where on the line, in the
words of the message; it is empty where the line says enough. -/
structure Diagnostic where
  stage : Stage
  line : Int
  place : String
  message : String
deriving DecidableEq, Repr

namespace Diagnostic

/-- Text of a diagnostic.  Problems of a run give the message first. -/
def text (diagnostic : Diagnostic) : String :=
  match diagnostic.stage with
  | .runtime => diagnostic.message ++ "\n[line " ++ toString diagnostic.line ++ "]"
  | _ =>
    "[line " ++ toString diagnostic.line ++ "] Error" ++ diagnostic.place ++ ": " ++
      diagnostic.message

/-- A line number, filled up with blanks to four places. -/
def lineLabel (line : Int) : String :=
  String.ofList ((toString line).toList.leftpad 4 ' ')

/-- The source line that a diagnostic about the text points at, if there is such
a line and it is not blank. -/
def context? (source : List Char) (diagnostic : Diagnostic) : Option (List Char) :=
  match diagnostic.stage with
  | .runtime => none
  | _ => (Text.line? source diagnostic.line).filter fun line => !Text.allBlank line

/-- Text of one diagnostic in a report, painted in a colour, with its source line if a
source is given. -/
def entry (paint : String → String) (source : Option (List Char)) (diagnostic : Diagnostic) :
    String :=
  let context := match source.bind fun text => diagnostic.context? text with
    | some line => lineLabel diagnostic.line ++ ": " ++ String.ofList line ++ "\n"
    | none => ""
  paint diagnostic.text ++ "\n" ++ context

/-- Text of a report. -/
def reportText (paint : String → String) (source : Option (List Char))
    (diagnostics : List Diagnostic) : String :=
  String.join (diagnostics.map (entry paint source))

end Diagnostic

end TreeWalker
