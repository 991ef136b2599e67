import CleanupFilter.CommandLine.Command

/-!
# Command line arguments

How the program understands its arguments. There are two commands, `disasm` and `filter`, each for
one listing. Options stand before or after the path; after `--` everything is a path. What the
commands do rests on nothing that is said here.

- `Command.ofArguments?`: the command, unless the arguments are not understood.
- `Command.ofArguments`: the command, or the outcome that explains how to ask for one.
-/

namespace CleanupFilter

/-- What the arguments so far have settled. -/
structure Settings where
  /-- The path of the listing. -/
  path? : Option String := none
  /-- The format of the report. -/
  format? : Option ReportFormat := none
  /-- Cleanup of resources is not looked for. -/
  skipResources : Bool := false
  /-- Release of monitors is not looked for. -/
  skipMonitors : Bool := false
  deriving DecidableEq, Repr

namespace ReportFormat

/-- The format of a name. Case matters. -/
def ofName? : List Char → Option ReportFormat
  | ['t', 'e', 'x', 't'] => some text
  | ['y', 'a', 'm', 'l'] => some yaml
  | _ => none

end ReportFormat

namespace Settings

/-- Settles the path, which is not empty and given once. -/
def withPath (settings : Settings) (path : String) : Option Settings :=
  if settings.path?.isSome ∨ path = "" then none else some { settings with path? := some path }

/-- Settles the format, which is given at most once. -/
def withFormat (settings : Settings) (name : List Char) : Option Settings :=
  if settings.format?.isSome then none
  else (ReportFormat.ofName? name).map fun format => { settings with format? := some format }

/-- Settles that cleanup of resources is not looked for, which is said at most once. -/
def withoutResources (settings : Settings) : Option Settings :=
  if settings.skipResources then none else some { settings with skipResources := true }

/-- Settles that release of monitors is not looked for, which is said at most once. -/
def withoutMonitors (settings : Settings) : Option Settings :=
  if settings.skipMonitors then none else some { settings with skipMonitors := true }

/-- A value that is written together with its option, without the equals sign between them. -/
def attached : List Char → List Char
  | '=' :: value => value
  | value => value

/-- Settles what a single argument says. A lone dash is a path. -/
def withArgument (settings : Settings) (argument : String) : Option Settings :=
  if argument = "--no-try-with-resources" then settings.withoutResources
  else if argument = "--no-synchronized" then settings.withoutMonitors
  else
    match ['-', '-', 'f', 'o', 'r', 'm', 'a', 't', '='].isPrefixOf? argument.toList with
    | some name => settings.withFormat name
    | none =>
      match argument.toList with
      | '-' :: 'f' :: name => settings.withFormat (attached name)
      | '-' :: _ :: _ => none
      | _ => settings.withPath argument

/-- Settles what the arguments after the name of a command say. -/
def withArguments (settings : Settings) : List String → Option Settings
  | [] => some settings
  | argument :: rest =>
    if argument = "--" then rest.foldlM withPath settings
    else if argument = "-f" ∨ argument = "--format" then
      match rest with
      | [] => none
      | name :: rest => (settings.withFormat name.toList).bind (withArguments · rest)
    else (settings.withArgument argument).bind (withArguments · rest)

/-- The command `disasm` with these settings. It has no options. -/
def disasm? (settings : Settings) : Option Command :=
  if settings = { path? := settings.path? } then settings.path?.map .disasm else none

/-- The command `filter` with these settings. -/
def filter? (settings : Settings) : Option Command :=
  settings.path?.map fun path =>
    .filter path (settings.format?.getD .text)
      { resources := !settings.skipResources, monitors := !settings.skipMonitors }

end Settings

/-- What the arguments ask for, unless they are not understood. -/
def Command.ofArguments? : List String → Option Command
  | "disasm" :: rest => (Settings.withArguments {} rest).bind Settings.disasm?
  | "filter" :: rest => (Settings.withArguments {} rest).bind Settings.filter?
  | _ => none

/-- The outcome for arguments that are not understood. -/
def Outcome.usage : Outcome where
  exitCode := 2
  errors := "usage: disasm <input>\n" ++
    "       filter [--format text|yaml] [--no-try-with-resources] [--no-synchronized] <input>\n"

/-- What the arguments ask for, or what the program answers if they are not understood. -/
def Command.ofArguments (arguments : List String) : Except Outcome Command :=
  match ofArguments? arguments with
  | some command => .ok command
  | none => .error .usage

end CleanupFilter
