import CleanupFilter.Cleanup.Ecj
import CleanupFilter.Cleanup.Javac

/-!
# Shapes of resource cleanup

Compilers expand a `try` statement with resources into cleanup code that has no source line of its
own. Five shapes of it are known.

- `ResourceShape`: the shapes, in the order in which they are tried.
- `ResourceShape.follow?`: the cursor after the cleanup, if the code has the shape.
- `resourceCleanup?`: the cleanup that starts at a position.
-/

namespace CleanupFilter

/-- A shape of resource cleanup. -/
inductive ResourceShape
  /-- ecj, any number of chained resources. -/
  | ecj
  /-- javac 9 and later for a resource that is known not to be null, closed by the synthetic method
  `$closeResource`. -/
  | javacOptimal
  /-- javac 7 and 8, with null checks on the resource and on the primary exception. -/
  | javacFull
  /-- javac 9 and later, without the null check on the resource. -/
  | javacOmittedNullCheck
  /-- javac 9 and later, calling `$closeResource` after a null check. -/
  | javacMethod
  deriving DecidableEq, Repr

namespace ResourceShape

/-- All shapes in the order in which they are tried. -/
def all : List ResourceShape :=
  [ecj, javacOptimal, javacFull, javacOmittedNullCheck, javacMethod]

/-- The name of the shape in log records. -/
def name : ResourceShape → String
  | ecj => "Ecj"
  | javacOptimal => "JavacOptimal"
  | javacFull => "JavacFull"
  | javacOmittedNullCheck => "JavacOmittedNullCheck"
  | javacMethod => "JavacMethod"

end ResourceShape

/-- The cursor after the cleanup, if the code behind the cursor has the shape. -/
def ResourceShape.follow? (code : Code) : ResourceShape → Cursor → Option Cursor
  | ecj => Ecj.follow? code
  | javacOptimal => (Cursor.runSegments code Javac.optimal).follow?
  | javacFull => (Cursor.runSegments code Javac.full).follow?
  | javacOmittedNullCheck => (Cursor.runSegments code Javac.omittedNullCheck).follow?
  | javacMethod => (Cursor.runSegments code Javac.helperMethod).follow?

/-- The shape and the last node of the resource cleanup that starts at `start`. The first node of
the code never starts one. -/
def resourceCleanup? (code : Code) (start : Nat) : Option (ResourceShape × Nat) :=
  (Cursor.before? code start).bind fun cursor =>
    ResourceShape.all.findSome? fun shape =>
      ((shape.follow? code cursor).bind Cursor.position).map fun last => (shape, last)

end CleanupFilter
