import CleanupFilter.Cleanup.Finding

/-!
# Commands

- `Command`: what the program is asked to do.
- `Outcome`: what a run of the program leaves behind.
-/

namespace CleanupFilter

/-- How a report is written. -/
inductive ReportFormat
  | text
  | yaml
  deriving DecidableEq, Repr

/-- What the program is asked to do with the listing at a path. -/
inductive Command
  /-- Print the methods with a position in front of each node. -/
  | disasm (path : String)
  /-- Report the cleanup code of the methods. -/
  | filter (path : String) (format : ReportFormat) (config : FilterConfig)
  deriving DecidableEq, Repr

/-- The path of the listing. -/
def Command.path : Command → String
  | disasm path => path
  | filter path _ _ => path

/-- What a run of the program leaves behind. -/
structure Outcome where
  /-- The exit code. -/
  exitCode : Nat
  /-- What is written to standard output. -/
  output : String := ""
  /-- What is written to standard error. -/
  errors : String := ""
  deriving DecidableEq, Repr

namespace Outcome

/-- The outcome of a run that comes to nothing. -/
def failure (message : String) : Outcome where
  exitCode := 1
  errors := "Error: " ++ message ++ "\n"

/-- The outcome of a run that has something to print, or fails on the way. -/
def ofResult : Except String String → Outcome
  | .error message => failure message
  | .ok output => { exitCode := 0, output }

end Outcome

end CleanupFilter
