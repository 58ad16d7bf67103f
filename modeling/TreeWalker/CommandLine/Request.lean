import TreeWalker.CommandLine.Flag
import TreeWalker.Text.Quoted

/-!
# Requests

The arguments of the command line come to a request.  Flags and the script may
stand in any order, and two dashes end the flags.  The first argument that is no
flag is the script; further ones, and unknown flags, are not recognized.  The
flags for help and the version act at once, before anything to the right of them
is looked at, except that an ambiguous flag anywhere spoils the whole command
line.
-/

namespace TreeWalker.CommandLine

/-- Settings for a run. -/
structure Settings where
  script : Option String
  interactive : Bool
  parse : Bool
  rpn : Bool
  debug : Bool
  noColor : Bool
deriving DecidableEq, Repr

namespace Settings

/-- Settings before any argument. -/
def initial : Settings :=
  ⟨none, false, false, false, false, false⟩

end Settings

/-- What is wrong with a command line. -/
inductive UsageFault where
  | ambiguous (argument : String) (candidates : List String)
  | ignoredValue (flag : Flag) (value : String)
  | unrecognized (arguments : List String)
  | scriptAtPrompt
deriving DecidableEq, Repr

namespace UsageFault

/-- Wording of a fault. -/
def message : UsageFault → String
  | ambiguous argument candidates =>
    "ambiguous option: " ++ argument ++ " could match " ++ String.intercalate ", " candidates
  | ignoredValue flag value =>
    "argument " ++ flag.title ++ ": ignored explicit argument " ++ Text.quoted value
  | unrecognized arguments =>
    "unrecognized arguments: " ++ String.intercalate " " arguments
  | scriptAtPrompt => "a script cannot be combined with --interactive"

end UsageFault

/-- What is asked for. -/
inductive Request where
  | help
  | version
  | invalid (fault : UsageFault)
  | proceed (settings : Settings)
deriving DecidableEq, Repr

/-- Arguments that have been looked at: the settings they make, those that are
not recognized, and whether the last one was taken as the script. -/
structure Progress where
  settings : Settings
  leftOver : List String
  scriptJustTaken : Bool

namespace Progress

/-- No argument has been looked at. -/
def initial : Progress :=
  ⟨.initial, [], false⟩

/-- Take an argument that is no flag. -/
def plain (progress : Progress) (argument : String) : Progress :=
  match progress.settings.script with
  | none => { progress with
      settings := { progress.settings with script := some argument }, scriptJustTaken := true }
  | some _ => { progress with
      leftOver := progress.leftOver ++ [argument], scriptJustTaken := false }

/-- Take a flag that is not known. -/
def unknown (progress : Progress) (argument : String) : Progress :=
  { progress with leftOver := progress.leftOver ++ [argument], scriptJustTaken := false }

/-- Take the two dashes that end the flags.  They belong to the script if they
stand next to it, and otherwise they are not recognized. -/
def endOfFlags (progress : Progress) : Progress :=
  if progress.settings.script.isNone || progress.scriptJustTaken then
    { progress with scriptJustTaken := false }
  else
    progress.unknown "--"

/-- Take a flag that changes the settings. -/
def setting (progress : Progress) (settings : Settings) : Progress :=
  { progress with settings, scriptJustTaken := false }

/-- Take a flag; the flags for help and the version are requests of their own. -/
def flag (progress : Progress) : Flag → Except Request Progress
  | .help => .error .help
  | .version => .error .version
  | .interactive => .ok (progress.setting { progress.settings with interactive := true })
  | .parse => .ok (progress.setting { progress.settings with parse := true })
  | .rpn => .ok (progress.setting { progress.settings with rpn := true })
  | .debug => .ok (progress.setting { progress.settings with debug := true })
  | .noColor => .ok (progress.setting { progress.settings with noColor := true })

/-- Take arguments one after the other. -/
def take (progress : Progress) : List String → Except Request Progress
  | [] => .ok progress
  | "--" :: rest => .ok (rest.foldl plain progress.endOfFlags)
  | argument :: rest => do
    match Argument.of argument with
    | .plain => (progress.plain argument).take rest
    | .unknown => (progress.unknown argument).take rest
    | .ambiguous candidates => .error (.invalid (.ambiguous argument candidates))
    | .flag flag short value =>
      match unfold flag short value with
      | .error (flag, value) => .error (.invalid (.ignoredValue flag (String.ofList value)))
      | .ok flags =>
        let progress ← flags.foldlM Progress.flag progress
        progress.take rest

end Progress

/-- The first ambiguous argument before the end of the flags. -/
def firstAmbiguous? (arguments : List String) : Option UsageFault :=
  (arguments.takeWhile (· ≠ "--")).findSome? fun argument =>
    match Argument.of argument with
    | .ambiguous candidates => some (.ambiguous argument candidates)
    | _ => none

namespace Settings

/-- The script to run; an empty name counts as none. -/
def namedScript (settings : Settings) : Option String :=
  settings.script.filter fun name => !name.isEmpty

end Settings

/-- The request that the arguments come to. -/
def Request.of (arguments : List String) : Request :=
  match firstAmbiguous? arguments with
  | some fault => .invalid fault
  | none =>
    match Progress.initial.take arguments with
    | .error request => request
    | .ok progress =>
      if !progress.leftOver.isEmpty then .invalid (.unrecognized progress.leftOver)
      else if progress.settings.namedScript.isSome && progress.settings.interactive then
        .invalid .scriptAtPrompt
      else .proceed progress.settings

end TreeWalker.CommandLine
