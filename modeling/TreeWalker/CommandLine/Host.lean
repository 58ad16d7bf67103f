import TreeWalker.CommandLine.Request
import TreeWalker.Limits

/-!
# Hosts

What a program is given by the system that it runs on, beside its files and its input: how
deep its walks may go, and how text is shown in bold red.  Where there is no color, the
latter may leave a text as it is.
-/

namespace TreeWalker.CommandLine

/-- The system that a program runs on. -/
structure Host where
  limits : Limits
  colored : String → String

namespace Host

/-- How the text of a problem is shown under the given settings. -/
def paint (host : Host) (settings : Settings) : String → String :=
  if settings.noColor then id else host.colored

end Host

end TreeWalker.CommandLine
