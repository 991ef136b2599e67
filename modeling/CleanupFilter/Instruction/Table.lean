import CleanupFilter.Instruction.OperandForm

/-!
# The instruction set

The instructions of the JVM in the order of their opcodes, which run from `0x00` to `0xc9` without
a gap, so that the opcode of an instruction is its index in the table.

- `Instruction`: mnemonic, operand form and traits of one opcode.
- `instructionTable`: all instructions.
-/

namespace CleanupFilter

/-- What the instruction set says about one opcode. -/
structure Instruction where
  /-- The mnemonic, in lower case. -/
  mnemonic : String
  /-- The shape of the operands. -/
  form : OperandForm
  /-- The classes that the instruction belongs to, lowest bit first. -/
  traits : List Trait
  deriving DecidableEq, Repr

namespace Instruction

/-- Instructions of consecutive opcodes that share form and traits. -/
def family (form : OperandForm) (traits : List Trait) (mnemonics : List String) :
    List Instruction :=
  mnemonics.map fun mnemonic => { mnemonic, form, traits }

end Instruction

open Instruction in
/-- The instructions of the JVM, ordered by opcode. -/
def instructionTable : Array Instruction := List.toArray <|
  family .plain [] [
    "nop", "aconst_null", "iconst_m1", "iconst_0", "iconst_1", "iconst_2", "iconst_3", "iconst_4",
    "iconst_5", "lconst_0", "lconst_1", "fconst_0", "fconst_1", "fconst_2", "dconst_0",
    "dconst_1"] ++
  family .int [] ["bipush", "sipush"] ++
  family .ldc [] ["ldc", "ldc_w", "ldc2_w"] ++
  family .var [.load] ["iload", "lload", "fload", "dload", "aload"] ++
  family .plain [] [
    "iload_0", "iload_1", "iload_2", "iload_3", "lload_0", "lload_1", "lload_2", "lload_3",
    "fload_0", "fload_1", "fload_2", "fload_3", "dload_0", "dload_1", "dload_2", "dload_3",
    "aload_0", "aload_1", "aload_2", "aload_3", "iaload", "laload", "faload", "daload", "aaload",
    "baload", "caload", "saload"] ++
  family .var [.store] ["istore", "lstore", "fstore", "dstore", "astore"] ++
  family .plain [] [
    "istore_0", "istore_1", "istore_2", "istore_3", "lstore_0", "lstore_1", "lstore_2", "lstore_3",
    "fstore_0", "fstore_1", "fstore_2", "fstore_3", "dstore_0", "dstore_1", "dstore_2", "dstore_3",
    "astore_0", "astore_1", "astore_2", "astore_3", "iastore", "lastore", "fastore", "dastore",
    "aastore", "bastore", "castore", "sastore", "pop", "pop2", "dup", "dup_x1", "dup_x2", "dup2",
    "dup2_x1", "dup2_x2", "swap", "iadd", "ladd", "fadd", "dadd", "isub", "lsub", "fsub", "dsub",
    "imul", "lmul", "fmul", "dmul", "idiv", "ldiv", "fdiv", "ddiv", "irem", "lrem", "frem", "drem",
    "ineg", "lneg", "fneg", "dneg", "ishl", "lshl", "ishr", "lshr", "iushr", "lushr", "iand",
    "land", "ior", "lor", "ixor", "lxor"] ++
  family .iinc [] ["iinc"] ++
  family .plain [] [
    "i2l", "i2f", "i2d", "l2i", "l2f", "l2d", "f2i", "f2l", "f2d", "d2i", "d2l", "d2f", "i2b",
    "i2c", "i2s", "lcmp", "fcmpl", "fcmpg", "dcmpl", "dcmpg"] ++
  family .jump [.jump, .conditional] [
    "ifeq", "ifne", "iflt", "ifge", "ifgt", "ifle", "if_icmpeq", "if_icmpne", "if_icmplt",
    "if_icmpge", "if_icmpgt", "if_icmple", "if_acmpeq", "if_acmpne"] ++
  family .jump [.jump] ["goto", "jsr"] ++
  family .var [] ["ret"] ++
  family .switch [.jump] ["tableswitch", "lookupswitch"] ++
  family .plain [.returning] ["ireturn", "lreturn", "freturn", "dreturn", "areturn", "return"] ++
  family .field [] ["getstatic", "putstatic", "getfield", "putfield"] ++
  family .method [.invoke] [
    "invokevirtual", "invokespecial", "invokestatic", "invokeinterface"] ++
  family .invokeDynamic [.invoke] ["invokedynamic"] ++
  family .type [] ["new"] ++
  family .int [] ["newarray"] ++
  family .type [] ["anewarray"] ++
  family .plain [] ["arraylength"] ++
  family .plain [.throwing] ["athrow"] ++
  family .type [] ["checkcast", "instanceof"] ++
  family .plain [.monitor] ["monitorenter", "monitorexit"] ++
  family .plain [] ["wide"] ++
  family .multiANewArray [] ["multianewarray"] ++
  family .jump [.jump, .conditional] ["ifnull", "ifnonnull"] ++
  family .jump [.jump] ["goto_w", "jsr_w"]

end CleanupFilter
