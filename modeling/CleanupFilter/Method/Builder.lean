import CleanupFilter.Method.Check

/-!
# Building method bodies

A builder collects nodes and exception table entries in the order in which they are added. Nothing
is refused on the way. The first opcode that does not belong to its call is noted, and
`Builder.build` reports it before it looks at the labels.

- `Builder.freshLabel`: labels numbered from 0.
- `Builder.push`, `Builder.add`: one more node, with and without a look at its opcode.
- `Builder.guard`: one more exception table entry.
- `Builder.position`: where the next node will stand.
- `Builder.build`: the body, or why it is malformed.
-/

namespace CleanupFilter

/-- A method body in the making. -/
structure Builder where
  /-- The name of the method. -/
  name : String
  /-- The descriptor of the method. -/
  desc : String
  /-- The nodes so far. -/
  nodes : Array (Node Label) := #[]
  /-- The exception table so far. -/
  tryCatches : Array (TryCatch Label) := #[]
  /-- The handle of the next fresh label. -/
  nextLabel : UInt32 := 0
  /-- The first opcode so far that did not have the form of its call. -/
  error? : Option BuildError := none
  deriving Repr

namespace Builder

/-- The next label. Handles are words of 32 bits, and the largest one is followed by 0. -/
def freshLabel (builder : Builder) : Label × Builder :=
  (⟨builder.nextLabel.toNat⟩, { builder with nextLabel := builder.nextLabel + 1 })

/-- The position of the next node. -/
def position (builder : Builder) : Nat :=
  builder.nodes.size

/-- Adds a node as it is. -/
def append (builder : Builder) (node : Node Label) : Builder :=
  { builder with nodes := builder.nodes.push node }

/-- Adds the instruction of a call for opcodes of the form `expected`. It is added in any case, and
an opcode of another form is noted if it is the first one. -/
def push (builder : Builder) (opcode : Opcode) (expected : OperandForm) (node : Node Label) :
    Builder :=
  let actual := opcode.form?
  let error? :=
    if actual ≠ some expected ∧ builder.error?.isNone then
      some (.operandForm builder.nodes.size opcode expected actual)
    else builder.error?
  { builder.append node with error? }

/-- Adds a node by the call for its kind, which names the form of the opcodes that it takes. The
interface flag of a method call follows its opcode. Pseudo-nodes and increments need no opcode. -/
def add (builder : Builder) : Node Label → Builder
  | .plain opcode => builder.push opcode .plain (.plain opcode)
  | .int opcode operand => builder.push opcode .int (.int opcode operand)
  | .var opcode slot => builder.push opcode .var (.var opcode slot)
  | .iinc slot increment => builder.append (.iinc slot increment)
  | .type opcode desc => builder.push opcode .type (.type opcode desc)
  | .field opcode target => builder.push opcode .field (.field opcode target)
  | .method opcode target _ => builder.push opcode .method (.call opcode target)
  | .jump opcode target => builder.push opcode .jump (.jump opcode target)
  | .ldc opcode constant => builder.push opcode .ldc (.ldc opcode constant)
  | .label name => builder.append (.label name)
  | .line number start => builder.append (.line number start)
  | .frame => builder.append .frame

/-- Adds an entry to the exception table. -/
def guard (builder : Builder) (entry : TryCatch Label) : Builder :=
  { builder with tryCatches := builder.tryCatches.push entry }

/-- What has been collected, unchecked. -/
def body (builder : Builder) : Body Label where
  name := builder.name
  desc := builder.desc
  nodes := builder.nodes
  tryCatches := builder.tryCatches.toList

/-- The finished body, unless an opcode was noted, a label is placed twice or a label that is
referred to is never placed. -/
def build (builder : Builder) : Except BuildError (Body Label) :=
  match builder.error?.or (builder.body.duplicate?.or builder.body.unplaced?) with
  | some error => .error error
  | none => .ok builder.body

end Builder

end CleanupFilter
