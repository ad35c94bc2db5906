import ClassAtlas.Bytes.Basic

/-!
Opcodes: which operands follow an opcode in the code array, and what an instruction with no other
operand than its opcode does to the operand stack.
-/

namespace ClassAtlas

/-- How an invocation finds its target. -/
inductive InvokeKind where
  | virtual
  | special
  | static
  | interface
  | dynamic
  deriving DecidableEq, Repr, Hashable, Inhabited

namespace InvokeKind

def name : InvokeKind → String
  | virtual => "virtual"
  | special => "special"
  | static => "static"
  | interface => "interface"
  | dynamic => "dynamic"

def ofName? : String → Option InvokeKind
  | "virtual" => some virtual
  | "special" => some special
  | "static" => some static
  | "interface" => some interface
  | "dynamic" => some dynamic
  | _ => none

/-- Whether the target depends on the class of the receiver. -/
def isDispatched : InvokeKind → Bool
  | virtual => true
  | interface => true
  | _ => false

end InvokeKind

abbrev Opcode := UInt8

namespace Opcode

def bipush : Opcode := 0x10
def sipush : Opcode := 0x11
def ldc : Opcode := 0x12
def ldcWide : Opcode := 0x13
def ldc2Wide : Opcode := 0x14
def iload : Opcode := 0x15
def aload : Opcode := 0x19
def iload0 : Opcode := 0x1A
def istore : Opcode := 0x36
def astore : Opcode := 0x3A
def istore0 : Opcode := 0x3B
def iinc : Opcode := 0x84
def goto : Opcode := 0xA7
def jsr : Opcode := 0xA8
def ret : Opcode := 0xA9
def tableswitch : Opcode := 0xAA
def lookupswitch : Opcode := 0xAB
def ireturn : Opcode := 0xAC
def areturn : Opcode := 0xB0
def returnVoid : Opcode := 0xB1
def getstatic : Opcode := 0xB2
def putstatic : Opcode := 0xB3
def getfield : Opcode := 0xB4
def putfield : Opcode := 0xB5
def invokevirtual : Opcode := 0xB6
def invokespecial : Opcode := 0xB7
def invokestatic : Opcode := 0xB8
def invokeinterface : Opcode := 0xB9
def invokedynamic : Opcode := 0xBA
def new : Opcode := 0xBB
def newarray : Opcode := 0xBC
def anewarray : Opcode := 0xBD
def athrow : Opcode := 0xBF
def checkcast : Opcode := 0xC0
def instanceof : Opcode := 0xC1
def wide : Opcode := 0xC4
def multianewarray : Opcode := 0xC5
def ifnull : Opcode := 0xC6
def ifnonnull : Opcode := 0xC7
def gotoWide : Opcode := 0xC8
def jsrWide : Opcode := 0xC9

/-- What follows an opcode in the code array. -/
inductive Layout where
  /-- Nothing. -/
  | plain
  /-- Nothing; the opcode itself names a local slot. -/
  | implied (slot : UInt16)
  /-- A signed byte. -/
  | byteNumber
  /-- A signed 16-bit number. -/
  | shortNumber
  /-- The code of a primitive type. -/
  | primitive
  /-- A pool index in one byte. -/
  | constant
  /-- A pool index in two bytes. -/
  | wideConstant
  /-- A local slot. -/
  | slot
  /-- A local slot and a signed step. -/
  | increment
  /-- A 16-bit distance. -/
  | jump
  /-- A 32-bit distance. -/
  | wideJump
  /-- Distances for a range of keys. -/
  | table
  /-- Distances for listed keys. -/
  | lookup
  /-- The index of a field reference. -/
  | field
  /-- The index of a method reference, and for interfaces two bytes more. -/
  | invoke (kind : InvokeKind)
  /-- The index of a dynamic call site and two bytes more. -/
  | dynamic
  /-- The index of a class. -/
  | type
  /-- The index of an array class and a number of dimensions. -/
  | multiArray
  /-- Another opcode, whose operands are twice as wide. -/
  | widened
  /-- No such instruction. -/
  | invalid
  deriving DecidableEq, Repr

/-- Whether an opcode lies between two others. -/
def between (op low high : Opcode) : Bool :=
  low ≤ op && op ≤ high

/-- Whether an opcode loads or stores a local slot that follows it, or returns through one. -/
def takesSlot (op : Opcode) : Bool :=
  between op iload aload || between op istore astore || op == ret

def layout (op : Opcode) : Layout :=
  if op ≤ 0x0F then .plain
  else if op == bipush then .byteNumber
  else if op == sipush then .shortNumber
  else if op == ldc then .constant
  else if op ≤ ldc2Wide then .wideConstant
  else if takesSlot op then .slot
  else if between op iload0 0x2D then .implied ((op - iload0) % 4).toUInt16
  else if between op istore0 0x4E then .implied ((op - istore0) % 4).toUInt16
  else if op == iinc then .increment
  else if op ≤ 0x98 then .plain
  else if op ≤ jsr then .jump
  else if op == tableswitch then .table
  else if op == lookupswitch then .lookup
  else if op ≤ returnVoid then .plain
  else if op ≤ putfield then .field
  else if op == invokevirtual then .invoke .virtual
  else if op == invokespecial then .invoke .special
  else if op == invokestatic then .invoke .static
  else if op == invokeinterface then .invoke .interface
  else if op == invokedynamic then .dynamic
  else if op == newarray then .primitive
  else if op == new || op == anewarray || op == checkcast || op == instanceof then .type
  else if op == wide then .widened
  else if op == multianewarray then .multiArray
  else if op == ifnull || op == ifnonnull then .jump
  else if op == gotoWide || op == jsrWide then .wideJump
  else if op ≤ 0xC3 then .plain
  else .invalid

/-- Local slots that a load or store touches. -/
def localWidth (op : Opcode) : Nat :=
  if op == 0x16 || op == 0x18 || op == 0x37 || op == 0x39 || between op 0x1E 0x21 ||
    between op 0x26 0x29 || between op 0x3F 0x42 || between op 0x47 0x4A then 2
  else 1

/-- Slots that an instruction adds to the operand stack when its operand does not matter. -/
def stackEffect (op : Opcode) : Int :=
  if op == 0x00 then 0
  else if op ≤ 0x08 then 1
  else if op ≤ 0x0A then 2
  else if op ≤ 0x0D then 1
  else if op ≤ 0x0F then 2
  else if op ≤ ldcWide then 1
  else if op == ldc2Wide then 2
  else if op == 0x16 || op == 0x18 then 2
  else if op ≤ aload then 1
  else if between op 0x1E 0x21 || between op 0x26 0x29 then 2
  else if op ≤ 0x2D then 1
  else if op == 0x2F || op == 0x31 then 0
  else if op ≤ 0x35 then -1
  else if op == 0x37 || op == 0x39 then -2
  else if op ≤ astore then -1
  else if between op 0x3F 0x42 || between op 0x47 0x4A then -2
  else if op ≤ 0x4E then -1
  else if op == 0x50 || op == 0x52 then -4
  else if op ≤ 0x56 then -3
  else if op == 0x57 then -1
  else if op == 0x58 then -2
  else if op ≤ 0x5B then 1
  else if op ≤ 0x5E then 2
  else if op == 0x5F then 0
  else if op ≤ 0x73 then if op % 2 == 0 then -1 else -2
  else if op ≤ 0x77 then 0
  else if op ≤ 0x7D then -1
  else if op ≤ 0x83 then if op % 2 == 0 then -1 else -2
  else if op == iinc then 0
  else if op == 0x85 || op == 0x87 || op == 0x8C || op == 0x8D then 1
  else if op == 0x88 || op == 0x89 || op == 0x8E || op == 0x90 then -1
  else if op ≤ 0x93 then 0
  else if op == 0x95 || op == 0x96 then -1
  else if op == 0x94 || op ≤ 0x98 then -3
  else if op ≤ 0x9E then -1
  else if op ≤ 0xA6 then -2
  else if op == jsr || op == jsrWide then 1
  else if op == goto || op == ret then 0
  else if op ≤ lookupswitch then -1
  else if op == 0xAD || op == 0xAF then -2
  else if op ≤ areturn then -1
  else if op == new then 1
  else if op == athrow || op == 0xC2 || op == 0xC3 || op == ifnull || op == ifnonnull then -1
  else 0

end Opcode

end ClassAtlas
