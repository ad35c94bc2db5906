import ClassAtlas.Bytes.Reader
import ClassAtlas.Code.Instruction

/-!
Decoding of code arrays into instructions. Jump targets must lie inside the code, and operands that
name something must resolve in the pool.
-/

namespace ClassAtlas.Code

/-- A signed 16-bit number. -/
def readShort : Reader Int := do
  return (← Reader.u16).toInt16.toInt

/-- A signed 32-bit number. -/
def readInt : Reader Int := do
  return (← Reader.u32).toInt32.toInt

/-- The target at a distance from an offset, which must lie in code of the given length. -/
def target (length offset : Nat) (delta : Int) : Reader Nat :=
  let t := (offset : Int) + delta
  if 0 ≤ t ∧ t < length then pure t.toNat else Reader.fail (.branchTarget t)

/-- A 32-bit distance, as a target. -/
def readTarget (length offset : Nat) : Reader Nat := do
  target length offset (← readInt)

/-- Bytes that align the operands of a switch at the given offset to four bytes. -/
def switchPadding (offset : Nat) : Nat :=
  (4 - (offset + 1) % 4) % 4

/-- The targets of a switch over a range of keys. -/
def readTable (length offset : Nat) : Reader Operand := do
  let _ ← Reader.take (switchPadding offset)
  let default ← readTarget length offset
  let low ← readInt
  let high ← readInt
  if high < low then Reader.fail .switchBounds
  else
    let targets ← Reader.many (high - low + 1).toNat (readTarget length offset)
    return .switch default targets

/-- The targets of a switch over listed keys. -/
def readLookup (length offset : Nat) : Reader Operand := do
  let _ ← Reader.take (switchPadding offset)
  let default ← readTarget length offset
  let pairs ← readInt
  if pairs < 0 then Reader.fail .negativePairs
  else
    let targets ← Reader.many pairs.toNat do
      let _ ← Reader.u32
      readTarget length offset
    return .switch default targets

/-- The operand of a widened opcode. -/
def readWidened (op : Opcode) : Reader Operand := do
  if Opcode.takesSlot op then return .slot (← Reader.u16)
  else if op == Opcode.iinc then
    let slot ← Reader.u16
    let _ ← Reader.u16
    return .slot slot
  else Reader.fail (.wideOpcode op)

/-- The operand that follows an opcode other than the widening one. -/
def readOperand (pool : Pool) (length offset : Nat) (op : Opcode) : Reader Operand :=
  match op.layout with
  | .plain => pure .none
  | .implied slot => pure (.slot slot)
  | .byteNumber => do return .immediate (← Reader.u8).toInt8.toInt
  | .shortNumber => do return .immediate (← readShort)
  | .primitive => do return .immediate (← Reader.u8).toNat
  | .constant => do return .constant (← Reader.u8).toUInt16
  | .wideConstant => do return .constant (← Reader.u16)
  | .slot => do return .slot (← Reader.u8).toUInt16
  | .increment => do
    let slot ← Reader.u8
    let _ ← Reader.u8
    return .slot slot.toUInt16
  | .jump => do
    let delta ← readShort
    return .jump (← target length offset delta)
  | .wideJump => do return .jump (← readTarget length offset)
  | .table => readTable length offset
  | .lookup => readLookup length offset
  | .field => do
    let index ← Reader.u16
    let m ← Reader.liftLocated (pool.memberRef index)
    return .field m.owner m.name m.descriptor
  | .invoke kind => do
    let index ← Reader.u16
    if kind = .interface then
      let _ ← Reader.u16
    let m ← Reader.liftLocated (pool.memberRef index)
    return .invoke ⟨kind, m.owner, m.name, m.descriptor, m.interface⟩
  | .dynamic => do
    let index ← Reader.u16
    let _ ← Reader.u16
    let (name, descriptor) ← Reader.liftLocated (pool.invokeDynamic index)
    return .dynamic name descriptor
  | .type => do
    let index ← Reader.u16
    return .type (← Reader.liftLocated (pool.className index))
  | .multiArray => do
    let index ← Reader.u16
    let dimensions ← Reader.u8
    return .multiArray (← Reader.liftLocated (pool.className index)) dimensions
  | .widened => Reader.fail (.opcode op)
  | .invalid => Reader.fail (.opcode op)

/-- Reads one instruction of code of the given length. -/
def readInstruction (pool : Pool) (length : Nat) : Reader Instruction := do
  let offset ← Reader.position
  let op ← Reader.u8
  if op == Opcode.wide then
    let op ← Reader.u8
    let operand ← readWidened op
    return ⟨offset, op, (← Reader.position) - offset, true, operand⟩
  else
    let operand ← readOperand pool length offset op
    return ⟨offset, op, (← Reader.position) - offset, false, operand⟩

/-- The instructions read so far, in reverse, followed by those of the remaining code. Every
instruction takes a byte at least, so the length of the code bounds the number of steps. -/
def readFrom (pool : Pool) (length : Nat) :
    (steps : Nat) → List Instruction → Reader (List Instruction)
  | 0, acc => fun c => .ok acc.reverse c
  | steps + 1, acc => fun c =>
    match c.rest with
    | [] => .ok acc.reverse c
    | _ =>
      match readInstruction pool length c with
      | .ok i c => readFrom pool length steps (i :: acc) c
      | .error e c => .error e c

/-- The instructions of a code array; failures are reported under the label. -/
def decode (label : String) (pool : Pool) (code : Bytes) :
    Except DecodeError (List Instruction) :=
  (readFrom pool code.length code.length []).run label code

end ClassAtlas.Code

namespace ClassAtlas

def ClassDecl.instructions (d : ClassDecl) (body : MethodBody) :
    Except DecodeError (List Instruction) :=
  Code.decode d.name d.pool body.code

end ClassAtlas
