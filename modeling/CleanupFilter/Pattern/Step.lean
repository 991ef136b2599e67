import CleanupFilter.Instruction.Opcode

/-!
# Steps of a pattern

A pattern is a list of steps, each of which says what the next node has to be. Symbols stand for
operands that have to agree wherever they occur: a local variable slot, a label or the owner of a
`close` call.

- `Scope`, `Key`: namespaces, and the qualified name of an operand.
- `Symbol`: a key, or a name that the scope of a step completes to one.
- `Step`: what the next node or nodes have to be.
-/

namespace CleanupFilter

/-- The namespace that a key lives in. -/
inductive Scope
  /-- The whole attempt. -/
  | method
  /-- Cleanup on the path of normal completion. -/
  | normal
  /-- Cleanup on the path of an exception. -/
  | exceptional
  /-- Cleanup of one resource of a chain, counted from the innermost one. -/
  | resource (index : Nat)
  /-- The handler that throws the primary exception again. -/
  | outermost
  deriving DecidableEq, Repr

/-- The qualified name of an operand. -/
structure Key where
  /-- The namespace of the name. -/
  scope : Scope
  /-- The name within the namespace. -/
  name : String
  deriving DecidableEq, Repr

/-- The name of an operand as a step has it. -/
inductive Symbol
  /-- Means the same key in every scope. -/
  | absolute (key : Key)
  /-- Completed by the scope that the step is run in. -/
  | relative (name : String)
  deriving DecidableEq, Repr

namespace Symbol

/-- The key of the symbol in a scope. -/
def resolve (scope : Scope) : Symbol → Key
  | absolute key => key
  | relative name => ⟨scope, name⟩

/-- The slot of the exception that the method throws in the end. -/
def primaryException : Symbol :=
  absolute ⟨.method, "primaryExc"⟩

end Symbol

/-- What the next node or nodes have to be. -/
inductive Step
  /-- An instruction with this opcode. -/
  | op (opcode : Opcode)
  /-- A load or store with this opcode, of the slot of the symbol. -/
  | var (opcode : Opcode) (slot : Symbol)
  /-- A jump with this opcode, to the label of the symbol. -/
  | jump (opcode : Opcode) (target : Symbol)
  /-- The label of the symbol, with no other pseudo-node before it. -/
  | label (name : Symbol)
  /-- A load of the resource and a call of its `close` method. -/
  | close (resource : Symbol)
  /-- Loads of the primary exception and of another one, which is added to it as suppressed. -/
  | addSuppressed (exception : Symbol)
  /-- A call with this opcode of a method with this name and descriptor. -/
  | invoke (opcode : Opcode) (name desc : String)
  /-- A typed load and the return of the value, or else a `GOTO` to the label of the symbol. -/
  | exit (target : Symbol)
  /-- The label of the symbol, if the symbol is bound. -/
  | joinLabel (name : Symbol)
  deriving DecidableEq, Repr

/-- Steps that are run in one scope. -/
structure Segment where
  /-- Completes the relative symbols of the steps. -/
  scope : Scope
  /-- The steps in order. -/
  steps : List Step
  deriving DecidableEq, Repr

end CleanupFilter
