import CleanupFilter.Method.Node

/-!
# Method bodies

A method body is a node sequence with an exception table.

- `TryCatch L`: an entry of the exception table.
- `Body L`: a method body whose labels are values of type `L`.
- `Body.placements`, `Body.references`, `Body.mentions`: the labels of a body, in order.
- `Body.mapLabel`: the body with its labels renamed.
-/

namespace CleanupFilter

/-- An entry of a method's exception table. -/
structure TryCatch (L : Type) where
  /-- The start of the guarded range. -/
  start : L
  /-- The end of the guarded range. -/
  stop : L
  /-- The code that handles the exception. -/
  handler : L
  /-- The internal name of the caught type; a handler without one catches everything. -/
  caught : Option String
  deriving DecidableEq, Repr

namespace TryCatch

variable {L M : Type}

/-- Whether the handler catches everything. -/
def isCatchAll (entry : TryCatch L) : Bool :=
  entry.caught.isNone

/-- The labels of the entry: start, end, handler. -/
def labels (entry : TryCatch L) : List L :=
  [entry.start, entry.stop, entry.handler]

/-- The entry with its labels replaced by their images under `f`. -/
def mapLabel (f : L → M) (entry : TryCatch L) : TryCatch M where
  start := f entry.start
  stop := f entry.stop
  handler := f entry.handler
  caught := entry.caught

end TryCatch

/-- A method body. Nothing ties its labels together; `Body.check` does. -/
structure Body (L : Type) where
  /-- The name of the method. -/
  name : String
  /-- The descriptor of the method. -/
  desc : String
  /-- The code. -/
  nodes : Array (Node L)
  /-- The exception table. -/
  tryCatches : List (TryCatch L)
  deriving DecidableEq, Repr

namespace Body

variable {L M : Type}

/-- The body with its labels replaced by their images under `f`. -/
def mapLabel (f : L → M) (body : Body L) : Body M where
  name := body.name
  desc := body.desc
  nodes := body.nodes.map (Node.mapLabel f)
  tryCatches := body.tryCatches.map (TryCatch.mapLabel f)

/-- The labels that the code places, in order. -/
def placements (body : Body L) : List L :=
  body.nodes.toList.filterMap Node.placed?

/-- The labels that jumps and line markers refer to, and then those of the exception table. -/
def references (body : Body L) : List L :=
  body.nodes.toList.filterMap Node.referenced? ++ body.tryCatches.flatMap TryCatch.labels

/-- The labels that the code places or refers to, and then those of the exception table. -/
def mentions (body : Body L) : List L :=
  body.nodes.toList.filterMap Node.mentioned? ++ body.tryCatches.flatMap TryCatch.labels

end Body

end CleanupFilter
