import CleanupFilter.CommandLine.Command
import CleanupFilter.CommandLine.MethodReport
import CleanupFilter.CommandLine.ReadError
import CleanupFilter.Listing.Reader
import CleanupFilter.Listing.Printer

/-!
# Executing commands

What the program prints and how it exits. How arguments are understood and how reports are put into
YAML is left open: the one is a function from arguments to a command, or to the outcome of a run that
has none, and the other a function from reports to a text, which may refuse.

- `Command.output`: what a command prints about the methods of a listing.
- `Command.outcome`: the outcome of a command for the contents of its listing.
- `execute`: the outcome for given arguments.
-/

namespace CleanupFilter

/-- Puts the reports of the methods of a listing into a text, or says why it cannot. -/
abbrev Renderer := List MethodReport → Except String String

namespace Command

/-- What the command prints about the methods of the listing, or why it cannot print it. -/
def output (render : Renderer) (bodies : List (Body Label)) : Command → Except String String
  | disasm path =>
    .ok ("# " ++ path ++ " (" ++ bodies.length.repr ++ " methods)\n\n" ++
      String.join (bodies.map fun body => body.indexedListing ++ "\n"))
  | filter _ .text config =>
    .ok (String.join (bodies.map fun body => (MethodReport.ofBody config body).text))
  | filter _ .yaml config => render (bodies.map (MethodReport.ofBody config))

/-- The methods of the listing with the given contents, or what is wrong with it. -/
def load (contents : Except ReadError ByteArray) : Except String (List (Body Label)) :=
  match contents with
  | .error error => .error error.message
  | .ok bytes =>
    match String.fromUTF8? bytes with
    | none => .error ReadError.notText.message
    | some source =>
      match readListing source with
      | .error error => .error error.message
      | .ok bodies => .ok bodies

/-- The outcome of the command for the contents of its listing. -/
def outcome (render : Renderer) (command : Command) (contents : Except ReadError ByteArray) :
    Outcome :=
  match load contents with
  | .error message => .failure (command.path ++ ": " ++ message)
  | .ok bodies => .ofResult (command.output render bodies)

end Command

/-- The outcome for arguments, when `understand` tells what they ask for and `contents` gives the
contents of the file at a path. -/
def execute {m : Type → Type} [Monad m] (understand : List String → Except Outcome Command)
    (render : Renderer) (contents : String → m (Except ReadError ByteArray))
    (arguments : List String) : m Outcome :=
  match understand arguments with
  | .error outcome => pure outcome
  | .ok command => do return command.outcome render (← contents command.path)

end CleanupFilter
