import CleanupFilter.Instruction.Opcode

/-!
# Nodes of a method body

The code of a method is a sequence of nodes. Most are instructions; labels, line markers and stack
map frames are *pseudo-nodes* that carry no executable code.

- `Node L`: a node whose labels are named by values of type `L`.
- `Node.opcode?`, `Node.form?`: the opcode of an instruction, and the form its kind stands for.
- `Node.placed?`, `Node.referenced?`, `Node.mentioned?`: the label that a node places or refers to.
- `Node.mapLabel`: the node with its label renamed.
-/

namespace CleanupFilter

/-- The identity of a label within a method body. -/
structure Label where
  /-- Labels are equal exactly when their handles are. -/
  handle : Nat
  deriving DecidableEq, Repr

/-- A field or method of a class. -/
structure Member where
  /-- The internal name of the class, such as `java/lang/Throwable`. -/
  owner : String
  /-- The simple name. -/
  name : String
  /-- The type, or the types of parameters and result. -/
  desc : String
  deriving DecidableEq, Repr

/-- A node of a method body whose labels are values of type `L`. The opcode of an instruction need
not fit the kind of the node; `Node.Fits` says when it does. -/
inductive Node (L : Type)
  /-- An instruction without operands. -/
  | plain (opcode : Opcode)
  | int (opcode : Opcode) (operand : Int32)
  | var (opcode : Opcode) (slot : UInt16)
  | iinc (slot : UInt16) (increment : Int16)
  | type (opcode : Opcode) (desc : String)
  | field (opcode : Opcode) (target : Member)
  /-- A method call, and whether the owner is an interface. -/
  | method (opcode : Opcode) (target : Member) (interface : Bool)
  | jump (opcode : Opcode) (target : L)
  /-- A constant, kept as its source text. -/
  | ldc (opcode : Opcode) (constant : String)
  /-- The placement of a label. -/
  | label (name : L)
  /-- The source line of the code that starts at a label. -/
  | line (number : UInt32) (start : L)
  | frame
  deriving DecidableEq, Repr

namespace Node

variable {L M : Type}

/-- The opcode of an instruction; pseudo-nodes have none. -/
def opcode? : Node L → Option Opcode
  | plain opcode | int opcode _ | var opcode _ | type opcode _ | field opcode _
  | method opcode _ _ | jump opcode _ | ldc opcode _ => some opcode
  | iinc _ _ => some .iinc
  | label _ | line _ _ | frame => none

/-- The operand form that the kind of an instruction stands for. -/
def form? : Node L → Option OperandForm
  | plain _ => some .plain
  | int _ _ => some .int
  | var _ _ => some .var
  | iinc _ _ => some .iinc
  | type _ _ => some .type
  | field _ _ => some .field
  | method _ _ _ => some .method
  | jump _ _ => some .jump
  | ldc _ _ => some .ldc
  | label _ | line _ _ | frame => none

/-- The opcode of the node has the operand form of the node. Pseudo-nodes always fit. -/
def Fits (node : Node L) : Prop :=
  node.opcode?.bind Opcode.form? = node.form?

instance (node : Node L) : Decidable node.Fits :=
  inferInstanceAs (Decidable (_ = _))

/-- Labels, line markers and frames. -/
def isPseudo : Node L → Bool
  | label _ | line _ _ | frame => true
  | _ => false

/-- The local variable slot of a load, a store or `ret`. -/
def slot? : Node L → Option UInt16
  | var _ slot => some slot
  | _ => none

/-- The branch target of a jump. -/
def target? : Node L → Option L
  | jump _ target => some target
  | _ => none

/-- The called method. -/
def callee? : Node L → Option Member
  | method _ target _ => some target
  | _ => none

/-- The label that the node places. -/
def placed? : Node L → Option L
  | label name => some name
  | _ => none

/-- The label that the node refers to without placing it. -/
def referenced? : Node L → Option L
  | jump _ target => some target
  | line _ start => some start
  | _ => none

/-- The label that the node places or refers to. -/
def mentioned? : Node L → Option L
  | label name => some name
  | jump _ target => some target
  | line _ start => some start
  | _ => none

/-- The node with its label replaced by its image under `f`. -/
def mapLabel (f : L → M) : Node L → Node M
  | plain opcode => plain opcode
  | int opcode operand => int opcode operand
  | var opcode slot => var opcode slot
  | iinc slot increment => iinc slot increment
  | type opcode desc => type opcode desc
  | field opcode target => field opcode target
  | method opcode target interface => method opcode target interface
  | jump opcode target => jump opcode (f target)
  | ldc opcode constant => ldc opcode constant
  | label name => label (f name)
  | line number start => line number (f start)
  | frame => frame

/-- A method call whose interface flag follows from its opcode. -/
def call (opcode : Opcode) (target : Member) : Node L :=
  method opcode target (opcode == .invokeInterface)

/-- The node with the interface flag that `Node.call` sets; other nodes stay as they are. -/
def withInterfaceFlag : Node L → Node L
  | method opcode target _ => call opcode target
  | node => node

end Node

end CleanupFilter
