import CleanupFilter.CommandLine.Arguments
import CleanupFilter.CommandLine.Execute
import CleanupFilter.Yaml.Report

/-!
# The program

Reads the listing that the arguments name, and prints what the command answers.
-/

namespace CleanupFilter

/-- Why the operating system refuses to read a file. -/
def refusal : IO.Error → ReadError
  | .interrupted _ code description | .noFileOrDirectory _ code description
  | .invalidArgument _ code description | .permissionDenied _ code description
  | .resourceExhausted _ code description | .inappropriateType _ code description
  | .noSuchThing _ code description | .hardwareFault code description
  | .resourceBusy code description | .otherError code description =>
    -- Some codes arrive negated.
    .ofCode (if code.toInt32 < 0 then -code else code).toNat description
  | error => .system (toString error) 0

/-- The contents of a file, or why it cannot be read. -/
def fileContents (path : String) : IO (Except ReadError ByteArray) := do
  try
    return .ok (← IO.FS.readBinFile path)
  catch error =>
    return .error (refusal error)

end CleanupFilter

/-- Runs the program. -/
def main (arguments : List String) : IO UInt32 := do
  let outcome ← CleanupFilter.execute CleanupFilter.Command.ofArguments CleanupFilter.yamlRenderer
    CleanupFilter.fileContents arguments
  (← IO.getStdout).putStr outcome.output
  (← IO.getStderr).putStr outcome.errors
  return outcome.exitCode.toUInt32
