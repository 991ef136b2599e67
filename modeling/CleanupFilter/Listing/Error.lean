import CleanupFilter.Method.Check

/-!
# Listing errors

What can be wrong with a listing, and how it is put into words.

- `Operands`: the shapes of operands that lines of a listing can hold.
- `LineFault`: what is wrong with a single line.
- `ListingError`: a faulty line, a method without an end, or a malformed body.
- `ListingError.message`: the error in words.
-/

namespace CleanupFilter

/-- The operands that an instruction can have in a listing. -/
inductive Operands
  | nothing
  | integer
  | slot
  | slotAndIncrement
  | type
  | field
  | method
  | label
  | constant
  deriving DecidableEq, Repr

namespace Operands

/-- What a line with such operands is expected to hold after the mnemonic. -/
def description : Operands → String
  | nothing => "no operands"
  | integer => "one integer operand"
  | slot => "a local variable slot"
  | slotAndIncrement => "a slot and an increment"
  | type => "a type"
  | field => "`owner.name : descriptor`"
  | method => "`owner.name descriptor`"
  | label => "a label"
  | constant => "a constant"

/-- The operands of a form in a listing. Call sites, switches and arrays of several dimensions
have no written form. -/
def ofForm? : OperandForm → Option Operands
  | .plain => some nothing
  | .int => some integer
  | .var => some slot
  | .iinc => some slotAndIncrement
  | .type => some type
  | .field => some field
  | .method => some method
  | .jump => some label
  | .ldc => some constant
  | .invokeDynamic | .switch | .multiANewArray => none

end Operands

/-- What is wrong with a line of a listing. -/
inductive LineFault
  /-- The first word is no mnemonic. -/
  | unknownMnemonic (word : String)
  /-- The rest of the line is not what the instruction needs. -/
  | badOperand (opcode : Opcode) (expected : Operands)
  /-- The operands of the instruction have no written form. -/
  | unsupportedForm (opcode : Opcode)
  /-- A `method` line without exactly a name and a descriptor. -/
  | methodHeader
  /-- A label with no name or with something after it. -/
  | crowdedLabel
  /-- A `LINENUMBER` line without exactly a number and a label. -/
  | lineMarker
  /-- A `LINENUMBER` line whose number is none. -/
  | lineNumber
  /-- A `TRYCATCHBLOCK` line without exactly three labels and a type. -/
  | tryCatchEntry
  /-- A line that belongs into a method stands outside of one. -/
  | outsideMethod (word : String)
  deriving DecidableEq, Repr

/-- Why a listing cannot be read. -/
inductive ListingError
  /-- The line of the given number, counted from 1, is faulty. -/
  | line (number : Nat) (fault : LineFault)
  /-- The method that the given line opens is not closed. -/
  | unterminatedMethod (line : Nat) (name : String)
  /-- The body of the method is malformed. -/
  | malformedBody (name : String) (cause : BuildError)
  deriving DecidableEq, Repr

namespace LineFault

/-- The fault in words. -/
def message : LineFault → String
  | unknownMnemonic word => "unknown mnemonic `" ++ word ++ "`"
  | badOperand opcode expected => opcode.display ++ " expects " ++ expected.description
  | unsupportedForm opcode => opcode.display ++ " operands are not supported in listings"
  | methodHeader => "expected `method <name> <descriptor>`"
  | crowdedLabel => "a label must stand on its own line"
  | lineMarker => "expected `LINENUMBER <line> <label>`"
  | lineNumber => "line number must be an unsigned integer"
  | tryCatchEntry => "expected `TRYCATCHBLOCK <start> <end> <handler> <type|null>`"
  | outsideMethod word => "`" ++ word ++ "` outside of a method"

end LineFault

namespace ListingError

/-- The error in words. -/
def message : ListingError → String
  | line number fault => "line " ++ number.repr ++ ": " ++ fault.message
  | unterminatedMethod start name =>
    "line " ++ start.repr ++ ": method `" ++ name ++ "` is missing `end`"
  | malformedBody name cause => "method `" ++ name ++ "`: " ++ cause.message

end ListingError

end CleanupFilter
