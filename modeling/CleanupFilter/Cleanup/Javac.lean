import CleanupFilter.Pattern.Run

/-!
# Resource cleanup by javac

javac writes the cleanup of a resource twice, on the normal path and on the exceptional one. Between
the two stands the handler that makes the exception of the body the primary one.

- `Javac.optimal`: both paths call the synthetic method `$closeResource`, without any null check.
- `Javac.full`: both paths check the resource and the primary exception for null.
- `Javac.omittedNullCheck`: the same without the check on the resource.
- `Javac.helperMethod`: both paths check the resource and call `$closeResource`.
-/

namespace CleanupFilter

open CleanupFilter.Symbol (primaryException)

namespace Javac

/-- The second argument of `$closeResource`. -/
def helperResource : Symbol := .absolute ⟨.method, "suppressedExc"⟩

/-- The resource. -/
def resource : Symbol := .absolute ⟨.method, "r"⟩

/-- The slot of an exception of the body while it becomes the primary one. -/
def caught : Symbol := .absolute ⟨.method, "t1"⟩

/-- The slot of the exception that the catch-all handler throws again. -/
def caughtAny : Symbol := .absolute ⟨.method, "t2"⟩

/-- Where normal completion goes on. -/
def normalExit : Symbol := .absolute ⟨.normal, "finallyExit"⟩

/-- Where exceptional completion goes on. -/
def exceptionalExit : Symbol := .absolute ⟨.exceptional, "finallyExit"⟩

/-- Where either path goes on. -/
def finallyExit : Symbol := .relative "finallyExit"

/-- The close that nothing pending can suppress. -/
def closeLabel : Symbol := .relative "closeLabel"

/-- The exception of a failing close. -/
def suppressed : Symbol := .relative "t"

/-- The call of the synthetic method. -/
def helperCall : Step :=
  .invoke .invokeStatic "$closeResource" "(Ljava/lang/Throwable;Ljava/lang/AutoCloseable;)V"

/-- `$closeResource(primaryExc, r)`. -/
def closeByHelper : List Step :=
  [.var .aload primaryException, .var .aload helperResource, helperCall]

/-- `catch (Throwable t) { primaryExc = t; throw t; }`. -/
def savePrimaryException : List Step :=
  [.op .astore, .var .aload caught, .var .astore primaryException, .var .aload caught, .op .athrow]

/-- Cleanup by the synthetic method, without any null check. -/
def optimal : List Segment :=
  [⟨.method, closeByHelper⟩,
    ⟨.method, [.exit normalExit]⟩,
    ⟨.method, savePrimaryException⟩,
    ⟨.method, [.op .astore]⟩,
    ⟨.method, closeByHelper⟩,
    ⟨.method, [.op .aload, .op .athrow, .joinLabel normalExit]⟩]

/-- Cleanup that checks the primary exception only. -/
def closeInline : List Step :=
  [
    -- if (primaryExc != null)
    .var .aload primaryException, .jump .ifNull closeLabel,
    -- try { r.close(); }
    .close resource, .jump .goto finallyExit,
    -- catch (Throwable t) { primaryExc.addSuppressed(t); }
    .var .astore suppressed, .addSuppressed suppressed, .jump .goto finallyExit,
    -- else r.close();
    .label closeLabel, .close resource]

/-- `if (r != null)`. -/
def unlessNull : List Step :=
  [.op .aload, .jump .ifNull finallyExit]

/-- Cleanup that occurs on the normal and on the exceptional path. The exceptional path ends with
the rethrow of the pending exception. -/
def duplicated (cleanup : List Step) : List Segment :=
  [⟨.normal, cleanup⟩,
    ⟨.method, [.exit normalExit]⟩,
    ⟨.method, savePrimaryException⟩,
    ⟨.method, [.var .astore caughtAny]⟩,
    ⟨.exceptional, cleanup⟩,
    ⟨.method,
      [.label exceptionalExit, .var .aload caughtAny, .op .athrow, .joinLabel normalExit]⟩]

/-- Null checks on the resource and on the primary exception. -/
def full : List Segment :=
  duplicated (unlessNull ++ closeInline)

/-- A null check on the primary exception only. -/
def omittedNullCheck : List Segment :=
  duplicated closeInline

/-- A null check on the resource, and the synthetic method. -/
def helperMethod : List Segment :=
  duplicated (unlessNull ++ closeByHelper)

end Javac

end CleanupFilter
