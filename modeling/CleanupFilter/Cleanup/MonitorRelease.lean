import CleanupFilter.Pattern.Run

/-!
# Monitor release

A `synchronized` block has a catch-all handler that releases the monitor and throws the exception
again. The handler has no source line of its own.

- `MonitorShape`: the code of the handler, per compiler.
- `monitorRelease?`: the release at the handler of an exception table entry.
-/

namespace CleanupFilter

/-- A shape of monitor release. -/
inductive MonitorShape
  | javac
  /-- Leaves the exception on the stack. -/
  | ecj
  deriving DecidableEq, Repr

namespace MonitorShape

/-- The shapes in the order in which they are tried. -/
def all : List MonitorShape :=
  [javac, ecj]

/-- The name of the shape in log records. -/
def name : MonitorShape → String
  | javac => "javac"
  | ecj => "ecj"

/-- The code: `catch (any t) { monitorexit(lock); throw t; }`. -/
def steps : MonitorShape → List Step
  | javac => [.op .astore, .op .aload, .op .monitorExit, .op .aload, .op .athrow]
  | ecj => [.op .aload, .op .monitorExit, .op .athrow]

end MonitorShape

/-- The shape and the last node of the monitor release at the handler of an entry. Only catch-all
handlers release monitors; an entry that guards its own handler, as javac adds for the release
itself, does not count. -/
def monitorRelease? (code : Code) (entry : TryCatch Label) : Option (MonitorShape × Nat) :=
  if entry.isCatchAll = true ∧ entry.start ≠ entry.handler then
    (entry.handlerPosition? code).bind fun handler =>
      MonitorShape.all.findSome? fun shape =>
        (((Cursor.run code .method shape.steps).follow? (.after handler)).bind Cursor.position).map
          fun last => (shape, last)
  else none

end CleanupFilter
