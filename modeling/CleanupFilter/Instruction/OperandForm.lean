/-!
# Operand forms and traits

Every instruction of the JVM carries operands of one shape, its *form*, and belongs to some control
or data flow classes, its *traits*.

- `OperandForm`: the shapes of operands, with the names they have in messages.
- `Trait`: the classes of instructions, each with a bit of its own in a trait mask.
-/

namespace CleanupFilter

/-- The shape of the operands that instructions of one opcode carry. -/
inductive OperandForm
  /-- No operands. -/
  | plain
  /-- One integer. -/
  | int
  /-- A local variable slot. -/
  | var
  /-- A local variable slot and an increment. -/
  | iinc
  /-- A type descriptor or internal name. -/
  | type
  /-- Owner, name and descriptor of a field. -/
  | field
  /-- Owner, name and descriptor of a method. -/
  | method
  /-- A bootstrapped call site. -/
  | invokeDynamic
  /-- A branch target. -/
  | jump
  /-- A constant pool entry. -/
  | ldc
  /-- A table of branch targets. -/
  | switch
  /-- An array type and a number of dimensions. -/
  | multiANewArray
  deriving DecidableEq, Repr

namespace OperandForm

/-- The name of the form in messages. -/
def name : OperandForm → String
  | plain => "Plain"
  | int => "Int"
  | var => "Var"
  | iinc => "Iinc"
  | type => "Type"
  | field => "Field"
  | method => "Method"
  | invokeDynamic => "InvokeDynamic"
  | jump => "Jump"
  | ldc => "Ldc"
  | switch => "Switch"
  | multiANewArray => "MultiANewArray"

end OperandForm

/-- A class that an instruction may belong to, in the order of the bits of a trait mask. -/
inductive Trait
  /-- Transfers control to a label; switches do too. -/
  | jump
  /-- A jump that may fall through. -/
  | conditional
  /-- Leaves the method, with or without a value. -/
  | returning
  /-- Throws the exception on the stack. -/
  | throwing
  /-- Loads a local variable slot. -/
  | load
  /-- Stores into a local variable slot. -/
  | store
  /-- Calls a method. -/
  | invoke
  /-- Enters or leaves a monitor. -/
  | monitor
  deriving DecidableEq, Repr

namespace Trait

/-- All traits, lowest bit first. -/
def all : List Trait :=
  [jump, conditional, returning, throwing, load, store, invoke, monitor]

/-- The name of the trait. -/
def name : Trait → String
  | jump => "jump"
  | conditional => "conditional"
  | returning => "return"
  | throwing => "throw"
  | load => "load"
  | store => "store"
  | invoke => "invoke"
  | monitor => "monitor"

/-- The mask in which only the trait's bit is set. -/
def bit : Trait → Nat
  | jump => 1
  | conditional => 2
  | returning => 4
  | throwing => 8
  | load => 16
  | store => 32
  | invoke => 64
  | monitor => 128

/-- The mask in which exactly the bits of the given traits are set, each trait being listed once. -/
def mask (traits : List Trait) : Nat :=
  traits.foldl (fun sum t => sum + t.bit) 0

end Trait

end CleanupFilter
