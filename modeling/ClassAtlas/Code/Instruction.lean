import ClassAtlas.Code.Opcode
import ClassAtlas.ClassFile.Declaration

/-!
Instructions with resolved operands, and the ways in which control leaves them.
-/

namespace ClassAtlas

/-- A call with a statically named target. -/
structure Invocation where
  kind : InvokeKind
  owner : String
  name : String
  descriptor : String
  /-- Whether the pool names the target as a method of an interface. -/
  interface : Bool
  deriving DecidableEq, Repr

/-- The operand of an instruction. Jumps hold absolute offsets. -/
inductive Operand where
  | none
  | slot (slot : UInt16)
  | jump (target : Nat)
  | switch (default : Nat) (targets : List Nat)
  | invoke (call : Invocation)
  | dynamic (name descriptor : String)
  | field (owner name descriptor : String)
  | type (name : String)
  | multiArray (descriptor : String) (dimensions : UInt8)
  | constant (index : UInt16)
  | immediate (value : Int)
  deriving DecidableEq, Repr

/-- An instruction at its place in the code. A widened one carries the opcode that it widens. -/
structure Instruction where
  offset : Nat
  opcode : Opcode
  length : Nat
  wide : Bool
  operand : Operand
  deriving DecidableEq, Repr

/-- How control leaves an instruction. -/
inductive Flow where
  | next
  | goto (target : Nat)
  | branch (target : Nat)
  /-- A subroutine call, after which control comes back in the end. -/
  | subroutine (target : Nat)
  | switch (default : Nat) (targets : List Nat)
  | exit
  deriving DecidableEq, Repr

namespace Instruction

def nextOffset (i : Instruction) : Nat := i.offset + i.length

/-- How control leaves the instruction. -/
def flow (i : Instruction) : Flow :=
  match i.operand with
  | .jump target =>
    if i.opcode == Opcode.goto || i.opcode == Opcode.gotoWide then .goto target
    else if i.opcode == Opcode.jsr || i.opcode == Opcode.jsrWide then .subroutine target
    else .branch target
  | .switch default targets => .switch default targets
  | _ =>
    if Opcode.between i.opcode Opcode.ireturn Opcode.returnVoid || i.opcode == Opcode.athrow ||
      i.opcode == Opcode.ret then .exit
    else .next

/-- Whether the instruction is the last of its basic block. -/
def endsBlock (i : Instruction) : Bool := i.flow != .next

/-- The call that the instruction makes, if any. -/
def invocation? (i : Instruction) : Option Invocation :=
  match i.operand with
  | .invoke call => some call
  | _ => none

end Instruction

end ClassAtlas
