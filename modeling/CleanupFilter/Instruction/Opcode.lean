import CleanupFilter.Instruction.Table

/-!
# Opcodes

An opcode is any byte; those below `0xca` are defined by `instructionTable`.

- `Opcode.instruction?`: the table entry of a defined opcode.
- `Opcode.ofMnemonic?`: the opcode of a mnemonic, ASCII case ignored.
- `Opcode.isVarLoad`, `Opcode.isValueReturn`, `Opcode.isJump`: classes that cleanup code is made of.
- `Opcode.display`, `Opcode.describe`: the opcode as text.
-/

namespace CleanupFilter

/-- The first byte of an instruction. -/
structure Opcode where
  /-- The byte itself. -/
  byte : UInt8
  deriving DecidableEq, Repr

namespace Opcode

/-! ### Opcodes that are referred to by name -/

def aload : Opcode := ⟨0x19⟩
def astore : Opcode := ⟨0x3a⟩
def iinc : Opcode := ⟨0x84⟩
def ifAcmpEq : Opcode := ⟨0xa5⟩
def goto : Opcode := ⟨0xa7⟩
def voidReturn : Opcode := ⟨0xb1⟩
def invokeVirtual : Opcode := ⟨0xb6⟩
def invokeStatic : Opcode := ⟨0xb8⟩
def invokeInterface : Opcode := ⟨0xb9⟩
def athrow : Opcode := ⟨0xbf⟩
def monitorExit : Opcode := ⟨0xc3⟩
def ifNull : Opcode := ⟨0xc6⟩
def ifNonNull : Opcode := ⟨0xc7⟩

/-! ### What the instruction set says -/

/-- The table entry of a defined opcode. -/
def instruction? (opcode : Opcode) : Option Instruction :=
  instructionTable[opcode.byte.toNat]?

/-- Whether the instruction set has the opcode. -/
def isDefined (opcode : Opcode) : Bool :=
  opcode.instruction?.isSome

/-- The mnemonic in lower case; undefined opcodes share one stand-in. -/
def mnemonic (opcode : Opcode) : String :=
  match opcode.instruction? with
  | some instruction => instruction.mnemonic
  | none => "<invalid>"

/-- The operand form, which undefined opcodes lack. -/
def form? (opcode : Opcode) : Option OperandForm :=
  opcode.instruction?.map Instruction.form

/-- The traits, lowest bit first; an undefined opcode has none. -/
def traits (opcode : Opcode) : List Trait :=
  match opcode.instruction? with
  | some instruction => instruction.traits
  | none => []

/-- The opcode whose mnemonic is `word` up to ASCII case. -/
def ofMnemonic? (word : String) : Option Opcode :=
  let lower := word.toLower
  (instructionTable.findIdx? (·.mnemonic == lower)).map fun index => ⟨index.toUInt8⟩

/-- A typed load of a local variable slot. -/
def isVarLoad (opcode : Opcode) : Bool :=
  opcode.traits.contains .load

/-- A return that hands a value back to the caller. -/
def isValueReturn (opcode : Opcode) : Bool :=
  opcode.traits.contains .returning && opcode != voidReturn

/-- An instruction that transfers control to a label. -/
def isJump (opcode : Opcode) : Bool :=
  opcode.traits.contains .jump

/-- The mnemonic in upper case, as listings print it. -/
def display (opcode : Opcode) : String :=
  opcode.mnemonic.toUpper

/-- The opcode's byte in two hexadecimal digits. -/
def hex (opcode : Opcode) : String :=
  String.ofList
    [Nat.digitChar (opcode.byte.toNat / 16), Nat.digitChar (opcode.byte.toNat % 16)]

/-- Byte and mnemonic, for diagnostics. -/
def describe (opcode : Opcode) : String :=
  "Opcode(0x" ++ opcode.hex ++ " " ++ opcode.mnemonic ++ ")"

end Opcode

end CleanupFilter
