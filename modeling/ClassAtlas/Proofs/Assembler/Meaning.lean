import ClassAtlas.Code.Assembler
import ClassAtlas.Code.Instruction
import Mathlib.Data.List.Forall2

/-!
What statements stand for: which of them are instructions, where labels stand among these, and when
a decoded instruction does what a statement asks for.
-/

namespace ClassAtlas

namespace Statement

/-- Whether the statement stands for an instruction. -/
def emits : Statement → Bool
  | .bind _ => false
  | .handler .. => false
  | _ => true

/-- Whether the statement binds the label. -/
def binds (label : Nat) : Statement → Bool
  | .bind bound => bound == label
  | _ => false

/-- The labels that control may go to from the statement. -/
def labels : Statement → List Nat
  | .jump _ label => [label]
  | .tableSwitch _ default targets => default :: targets
  | _ => []

/-- The opcode is of the kind that the statement is for. A switch has a target, and its last key is
a number of 32 bits. -/
def Valid : Statement → Prop
  | .plain op => op.layout = .plain ∨ ∃ n, op.layout = .implied n
  | .slot op _ => op.takesSlot = true
  | .jump op _ => op.layout = .jump
  | .tableSwitch low _ targets => targets ≠ [] ∧ low.toInt + targets.length - 1 ≤ 2147483647
  | .field op .. => op.layout = .field
  | .type op _ => op.layout = .type
  | _ => True

/-- The opcodes that push a number by themselves, from that of −1 to that of 5. -/
def smallInts : List (Opcode × Int) :=
  [(0x02, -1), (0x03, 0), (0x04, 1), (0x05, 2), (0x06, 3), (0x07, 4), (0x08, 5)]

/-- The instruction pushes the number, held by its opcode, by the instruction or by the pool. -/
def PushesInt (pool : Pool) (value : Int32) (i : Instruction) : Prop :=
  ((i.opcode, value.toInt) ∈ smallInts ∧ i.operand = .none) ∨
  ((i.opcode = Opcode.bipush ∨ i.opcode = Opcode.sipush) ∧ i.operand = .immediate value.toInt) ∨
  ∃ index, (i.opcode = Opcode.ldc ∨ i.opcode = Opcode.ldcWide) ∧ i.operand = .constant index ∧
    pool.get? index = some (.integer value)

/-- The instruction pushes the string that the pool holds. -/
def PushesString (pool : Pool) (text : String) (i : Instruction) : Prop :=
  ∃ index entry, (i.opcode = Opcode.ldc ∨ i.opcode = Opcode.ldcWide) ∧
    i.operand = .constant index ∧ pool.get? index = some (.string entry) ∧
    pool.utf8At entry = .ok text

/-- The opcodes of loads and stores, each with the first of the four that do the same with a slot of
their own. -/
def shortForms : List (Opcode × Opcode) :=
  [(0x15, 0x1A), (0x16, 0x1E), (0x17, 0x22), (0x18, 0x26), (0x19, 0x2A),
    (0x36, 0x3B), (0x37, 0x3F), (0x38, 0x43), (0x39, 0x47), (0x3A, 0x4B)]

/-- The opcode accesses the slot as the one that is asked for does: it is the same, or the one for
this slot alone. -/
def Accesses (asked : Opcode) (slot : UInt16) (op : Opcode) : Prop :=
  op = asked ∨ ∃ first, (asked, first) ∈ shortForms ∧ slot ≤ 3 ∧ op = first + slot.toUInt8

/-- The instruction does what the statement asks for, where `leads` says which offsets a label may
stand for. -/
def Means (pool : Pool) (leads : Nat → Nat → Prop) : Statement → Instruction → Prop
  | .plain op, i => i.opcode = op ∧ i.wide = false ∧
      ((op.layout = .plain ∧ i.operand = .none) ∨
        ∃ n, op.layout = .implied n ∧ i.operand = .slot n)
  | .slot op n, i => i.operand = .slot n ∧ Accesses op n i.opcode ∧
      i.opcode.localWidth = op.localWidth ∧ i.opcode.stackEffect = op.stackEffect
  | .increment n _, i => i.opcode = Opcode.iinc ∧ i.operand = .slot n
  | .pushInt value, i => PushesInt pool value i
  | .pushString text, i => PushesString pool text i
  | .jump op label, i => i.opcode = op ∧ ∃ target, i.operand = .jump target ∧ leads label target
  | .tableSwitch _ default targets, i => i.opcode = Opcode.tableswitch ∧
      ∃ first others, i.operand = .switch first others ∧ leads default first ∧
        List.Forall₂ leads targets others
  | .invoke kind owner name descriptor, i => i.opcode = Assembler.invokeOpcode kind ∧
      i.operand = if kind = .dynamic then .dynamic name descriptor
        else .invoke ⟨kind, owner, name, descriptor, kind = .interface⟩
  | .invokeDynamic name descriptor, i =>
      i.opcode = Opcode.invokedynamic ∧ i.operand = .dynamic name descriptor
  | .field op owner name descriptor, i =>
      i.opcode = op ∧ i.operand = .field owner name descriptor
  | .type op name, i => i.opcode = op ∧ i.operand = .type name
  | .bind _, _ => False
  | .handler .., _ => False

end Statement

namespace Assembler

/-- The number of instructions in front of the latest place of a label. -/
def mark (label : Nat) : List Statement → Option Nat
  | [] => none
  | s :: rest =>
    match mark label rest with
    | some n => some (if s.emits then n + 1 else n)
    | none => if s.binds label then some 0 else none

end Assembler

end ClassAtlas
