import CleanupFilter.Pattern.Cursor

/-!
# Running patterns

- `Cursor.step`: one step, its relative symbols completed by a scope.
- `Cursor.run`: the steps of one scope, one after the other.
- `Cursor.runSegments`: segments, one after the other.
- `Primitive.follow?`: the cursor after a success.
-/

namespace CleanupFilter

namespace Primitive

/-- The cursor that a primitive leaves when it succeeds. -/
def follow? (primitive : Primitive) (cursor : Cursor) : Option Cursor :=
  match primitive cursor with
  | (true, next) => some next
  | (false, _) => none

end Primitive

namespace Cursor

/-- One step of a pattern. -/
def step (code : Code) (scope : Scope) : Step → Primitive
  | .op opcode => expect code opcode
  | .var opcode slot => expectVar code opcode (slot.resolve scope)
  | .jump opcode target => expectJump code opcode (target.resolve scope)
  | .label name => expectLabel code (name.resolve scope)
  | .close resource => expectClose code (resource.resolve scope)
  | .addSuppressed exception => expectAddSuppressed code (exception.resolve scope)
  | .invoke opcode name desc => expectInvoke code opcode name desc
  | .exit target => exit code (target.resolve scope)
  | .joinLabel name => joinLabel code (name.resolve scope)

/-- Steps in order, up to the first failure. -/
def run (code : Code) (scope : Scope) : List Step → Primitive
  | [] => .accept
  | first :: rest => (step code scope first).andThen (run code scope rest)

/-- Segments in order, up to the first failure. -/
def runSegments (code : Code) : List Segment → Primitive
  | [] => .accept
  | first :: rest => (run code first.scope first.steps).andThen (runSegments code rest)

end Cursor

end CleanupFilter
