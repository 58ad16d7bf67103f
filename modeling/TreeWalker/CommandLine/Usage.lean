import TreeWalker.CommandLine.Request

/-!
# Texts of the command line

The usage, the help and the version, and the report of a faulty command line.
-/

namespace TreeWalker.CommandLine

/-- Name of the program. -/
def programName : String :=
  "treelox"

/-- Name and version of the program. -/
def versionText : String :=
  "treelox 0.1.0"

/-- How the program is called. -/
def usageText : String :=
  "usage: treelox [-h] [-i] [--parse] [--rpn] [--debug] [--no-color] [--version]\n" ++
  "               [script]\n"

/-- Lines of text, each ended by a line feed. -/
def linesOf (lines : List String) : String :=
  String.join (lines.map (· ++ "\n"))

/-- What the program is for and what its arguments mean. -/
def helpText : String :=
  usageText ++ linesOf
    ["",
      "Tree-walking interpreter for a small dynamically typed scripting language",
      "",
      "positional arguments:",
      "  script             script file to execute",
      "",
      "options:",
      "  -h, --help         show this help message and exit",
      "  -i, --interactive  Start interactive mode",
      "  --parse            Parse file and show the statement tree instead of running",
      "                     it",
      "  --rpn              Parse file and print each expression in reverse Polish",
      "                     form",
      "  --debug            Enable debug output for all stages",
      "  --no-color         Do not color diagnostics",
      "  --version          show program's version number and exit",
      "",
      "Examples:",
      "  treelox script.lox            # Run a script",
      "  treelox -i                    # Interactive mode",
      "  treelox --parse script.lox    # Parse and show the statement tree",
      "  treelox --rpn script.lox      # Show expressions in reverse Polish form",
      "  treelox --debug script.lox    # Run with debug output",
      "        "]

/-- Report of a faulty command line. -/
def usageReport (fault : UsageFault) : String :=
  usageText ++ programName ++ ": error: " ++ fault.message ++ "\n"

/-- Exit status for a faulty command line. -/
def usageStatus : Nat :=
  2

end TreeWalker.CommandLine
