import CleanupFilter.Method.Body

/-!
# Checking method bodies

A body is well formed if every opcode has the operand form of its node, no label is placed twice and
every label that is referred to is placed.

- `BuildError`: why a body is malformed, in words by `BuildError.message`.
- `Body.misfit?`, `Body.duplicate?`, `Body.unplaced?`: the first error of each kind.
- `Body.check`: the body, or the error that is reported of it.
-/

namespace CleanupFilter

/-- Why a body is malformed. -/
inductive BuildError
  /-- The opcode of the node at `index` does not have the operand form of the node. -/
  | operandForm (index : Nat) (opcode : Opcode) (expected : OperandForm)
      (actual : Option OperandForm)
  | duplicateLabel (label : Label)
  | unplacedLabel (label : Label)
  deriving DecidableEq, Repr

/-- The first element of a list that an earlier one is equal to. -/
def firstRepeat? {α : Type} [DecidableEq α] : List α → List α → Option α
  | _, [] => none
  | seen, a :: rest => if a ∈ seen then some a else firstRepeat? (a :: seen) rest

namespace Body

/-- The first node whose opcode does not have the operand form of the node. -/
def misfit? {L : Type} (body : Body L) : Option BuildError :=
  body.nodes.toList.zipIdx.findSome? fun (node, index) =>
    match node.opcode?, node.form? with
    | some opcode, some expected =>
      if opcode.form? = some expected then none
      else some (.operandForm index opcode expected opcode.form?)
    | _, _ => none

/-- The first label that is placed a second time. -/
def duplicate? (body : Body Label) : Option BuildError :=
  (firstRepeat? [] body.placements).map .duplicateLabel

/-- The first label that is referred to and never placed. -/
def unplaced? (body : Body Label) : Option BuildError :=
  (body.references.find? fun label => !body.placements.contains label).map .unplacedLabel

/-- The body, unless it is malformed. Misfitting opcodes come before labels, and labels placed
twice before labels that are never placed. -/
def check (body : Body Label) : Except BuildError (Body Label) :=
  match body.misfit?.or (body.duplicate?.or body.unplaced?) with
  | some error => .error error
  | none => .ok body

end Body

/-- The text of an optional operand form in a message. -/
def OperandForm.describe : Option OperandForm → String
  | some form => "Some(" ++ form.name ++ ")"
  | none => "None"

namespace Label

/-- The label in a message. -/
def describe (label : Label) : String :=
  "LabelId(" ++ label.handle.repr ++ ")"

end Label

namespace BuildError

/-- The error in words. -/
def message : BuildError → String
  | operandForm index opcode expected actual =>
    opcode.display ++ " has operand form " ++ OperandForm.describe actual ++ ", expected "
      ++ expected.name ++ " (node " ++ index.repr ++ ")"
  | duplicateLabel label => "label " ++ label.describe ++ " is placed more than once"
  | unplacedLabel label => "label " ++ label.describe ++ " is referenced but never placed"

end BuildError

end CleanupFilter
