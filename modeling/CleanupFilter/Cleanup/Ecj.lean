import CleanupFilter.Pattern.Forward

/-!
# Resource cleanup by ecj

ecj chains any number of resources. Resource 0 is the innermost one and is closed first. Where the
body ends with a value return, all resources are closed before it; otherwise the close of a resource
jumps to the code of the resource around it.

- `Ecj.close`, `Ecj.closeAndThrow`, `Ecj.suppress`, `Ecj.throwPrimary`: the parts of the code.
- `Ecj.layers?`: the resources around the innermost one, when jumps lead outwards.
- `Ecj.closes?`, `Ecj.handlers`: the closes and the handlers around a value return.
- `Ecj.follow?`: the cursor after the whole cleanup.
-/

namespace CleanupFilter

open CleanupFilter.Symbol (primaryException)

namespace Ecj

/-- The resource. -/
def resource : Symbol := .relative "r"

/-- Where the code after the normal close of the resource is. -/
def closed : Symbol := .relative "end"

/-- The rethrow in the handler of the resource. -/
def rethrow : Symbol := .relative "throw"

/-- The exception that a handler catches. -/
def suppressed : Symbol := .relative "t"

/-- The part of a handler for a primary exception that is already there. -/
def suppressStart : Symbol := .relative "suppressStart"

/-- The end of that part. -/
def suppressEnd : Symbol := .relative "suppressEnd"

/-- `if (r != null) r.close();`. -/
def close : List Step :=
  [.var .aload resource, .jump .ifNull closed, .close resource]

/-- `if (r != null) r.close(); throw primaryExc;`. -/
def closeAndThrow : List Step :=
  [.var .aload resource, .jump .ifNull rethrow, .close resource, .label rethrow, .op .aload,
    .op .athrow]

/-- The handler that makes an exception the primary one, or adds it to the one that there is. -/
def suppress : List Step :=
  [
    -- catch (Throwable t)
    .var .astore suppressed,
    -- if (primaryExc == null) primaryExc = t;
    .var .aload primaryException, .jump .ifNonNull suppressStart, .op .aload,
    .var .astore primaryException, .jump .goto suppressEnd,
    -- else if (primaryExc != t) primaryExc.addSuppressed(t);
    .label suppressStart, .var .aload primaryException, .op .aload, .jump .ifAcmpEq suppressEnd,
    .addSuppressed suppressed, .label suppressEnd]

/-- `throw primaryExc;`. -/
def throwPrimary : List Step :=
  [.var .aload primaryException, .op .athrow]

/-- The start of the handlers: the exception of the body becomes the primary one, and the innermost
resource is closed. -/
def innermost : List Step :=
  [.jump .goto closed, .var .astore primaryException] ++ closeAndThrow

/-- The code of the resource around the one with index `inner`: it starts where the inner resource
is closed, and closes its own on either path. -/
def layer (inner : Nat) : List Segment :=
  [⟨.resource inner, [.label closed]⟩,
    ⟨.resource (inner + 1), close ++ [.jump .goto closed] ++ suppress ++ closeAndThrow⟩]

/-- The resources around the one with index `inner`, at most `limit - 1` of them, and then the
outermost handler, which throws the primary exception. The handler is tried first. -/
def layers? (code : Code) : (limit inner : Nat) → Cursor → Option Cursor
  | 0, _, _ => none
  | limit + 1, inner, cursor =>
    match (Cursor.run code .outermost suppress).follow? cursor with
    | some next => (Cursor.run code .method throwPrimary).follow? next
    | none =>
      match (Cursor.runSegments code (layer inner)).follow? cursor with
      | some next => layers? code limit (inner + 1) next
      | none => none

/-- The normal closes of the resources from index `count` on, up to a value return. Answers how many
resources there are in all. -/
def closes? (code : Code) (count : Nat) (cursor : Cursor) : Option (Nat × Cursor) :=
  match Cursor.expectValueReturn code cursor with
  | (true, next) => some (count, next)
  | (false, _) =>
    match h : Cursor.run code (.resource count) close cursor with
    | (true, next) => closes? code (count + 1) next
    | (false, _) => none
termination_by cursor.remaining code
decreasing_by exact Cursor.remaining_lt_of_run_var h

/-- The handlers of `count` resources behind a value return. -/
def handlers (count : Nat) : List Segment :=
  ⟨.method, [.var .astore primaryException]⟩ ::
    (List.range count).map (fun index => ⟨.resource index, closeAndThrow ++ suppress⟩) ++
    [⟨.method, throwPrimary⟩]

/-- The cursor after the cleanup of a chain of resources. If the body ends with a value return,
every resource is closed before the return and no label follows the handlers; otherwise a jump
leads from the close of a resource to the resource around it. -/
def follow? (code : Code) (cursor : Cursor) : Option Cursor :=
  match (Cursor.run code (.resource 0) close).follow? cursor with
  | none => none
  | some first =>
    if first.peek? code = some .goto then
      match (Cursor.run code (.resource 0) innermost).follow? first with
      | none => none
      | some next => layers? code (next.remaining code) 0 next
    else
      match closes? code 1 first with
      | none => none
      | some (count, next) => (Cursor.runSegments code (handlers count)).follow? next

end Ecj

end CleanupFilter
