import Std.Data.HashMap
import ClassAtlas.ClassFile.Declaration
import ClassAtlas.Code.Opcode
import ClassAtlas.Descriptor
import ClassAtlas.Error

/-!
A symbolic assembler for method bodies. Every statement but the binding of a label and the
declaration of a handler stands for one instruction, written in its shortest form; jumps name labels
and are filled in when all statements have been laid out.
-/

namespace ClassAtlas

/-- A statement of the assembly language. Labels are numbers of the writer's choice. -/
inductive Statement where
  /-- An instruction that is its opcode. -/
  | plain (op : Opcode)
  /-- A load, a store or a return from a subroutine, through a local slot. -/
  | slot (op : Opcode) (slot : UInt16)
  | increment (slot : UInt16) (delta : Int16)
  | pushInt (value : Int32)
  | pushString (text : String)
  /-- The label stands for the offset of what follows. -/
  | bind (label : Nat)
  | jump (op : Opcode) (label : Nat)
  /-- A switch over consecutive keys from `low`. -/
  | tableSwitch (low : Int32) (default : Nat) (targets : List Nat)
  | invoke (kind : InvokeKind) (owner name descriptor : String)
  /-- A dynamic call site that uses the first bootstrap method. -/
  | invokeDynamic (name descriptor : String)
  | field (op : Opcode) (owner name descriptor : String)
  | type (op : Opcode) (name : String)
  /-- A handler for what is thrown between two labels; no type catches everything. -/
  | handler (start stop handler : Nat) (catchType : Option String)
  deriving Repr

namespace Assembler

/-- A distance that is still to be written: where, from which instruction, to which label, and in
how wide a field. -/
structure Fixup where
  place : Nat
  base : Nat
  label : Nat
  wide : Bool

/-- The bytes of a statement, with the distances to be filled in. -/
structure Piece where
  bytes : Bytes
  fixups : List Fixup

/-- A piece without distances. -/
def Piece.ofBytes (bytes : Bytes) : Piece := ⟨bytes, []⟩

/-- The first of the four opcodes with an implied slot that belong to a load or store. -/
def impliedBase? (op : Opcode) : Option Opcode :=
  if Opcode.between op Opcode.iload Opcode.aload then
    some (Opcode.iload0 + (op - Opcode.iload) * 4)
  else if Opcode.between op Opcode.istore Opcode.astore then
    some (Opcode.istore0 + (op - Opcode.istore) * 4)
  else none

/-- The shortest form of an access to a slot. -/
def slotBytes (op : Opcode) (slot : UInt16) : Bytes :=
  let long := if slot ≤ 255 then [op, slot.toUInt8] else Opcode.wide :: op :: Bytes.ofUInt16 slot
  match impliedBase? op with
  | some base => if slot ≤ 3 then [base + slot.toUInt8] else long
  | none => long

/-- The shortest form of a step of a local slot. -/
def incrementBytes (slot : UInt16) (delta : Int16) : Bytes :=
  if slot ≤ 255 ∧ -128 ≤ delta.toInt ∧ delta.toInt ≤ 127 then
    [Opcode.iinc, slot.toUInt8, delta.toUInt16.toUInt8]
  else Opcode.wide :: Opcode.iinc :: (Bytes.ofUInt16 slot ++ Bytes.ofInt16 delta)

/-- The shortest form of a load from the pool. -/
def constantBytes (index : UInt16) : Bytes :=
  if index ≤ 255 then [Opcode.ldc, index.toUInt8] else Opcode.ldcWide :: Bytes.ofUInt16 index

/-- The shortest form of a number, which may have to go to the pool. -/
def intBytes (pool : Pool) (value : Int32) : Bytes × Pool :=
  let v := value.toInt
  if -1 ≤ v ∧ v ≤ 5 then ([(3 + v).toNat.toUInt8], pool)
  else if -128 ≤ v ∧ v ≤ 127 then ([Opcode.bipush, value.toUInt32.toUInt8], pool)
  else if -32768 ≤ v ∧ v ≤ 32767 then
    (Opcode.sipush :: Bytes.ofUInt16 value.toUInt32.toUInt16, pool)
  else
    let (index, pool) := pool.integer value
    (constantBytes index, pool)

def invokeOpcode : InvokeKind → Opcode
  | .virtual => Opcode.invokevirtual
  | .special => Opcode.invokespecial
  | .static => Opcode.invokestatic
  | .interface => Opcode.invokeinterface
  | .dynamic => Opcode.invokedynamic

/-- A dynamic call site. -/
def dynamicBytes (pool : Pool) (name descriptor : String) : Bytes × Pool :=
  let (nat, pool) := pool.nameAndType name descriptor
  let (index, pool) := pool.intern (.invokeDynamic 0 nat)
  (Opcode.invokedynamic :: (Bytes.ofUInt16 index ++ [0, 0]), pool)

/-- A call. Calls through interfaces say again how many slots their arguments take. -/
def invokeBytes (pool : Pool) (kind : InvokeKind) (owner name descriptor : String) :
    Bytes × Pool :=
  let (index, pool) := pool.methodRef owner name descriptor (kind = .interface)
  if kind = .dynamic then dynamicBytes pool name descriptor
  else
    let slots :=
      match MethodType.parse descriptor with
      | .ok type => type.paramSlots
      | .error _ => 0
    let extra := if kind = .interface then [(slots + 1).toUInt8, 0] else []
    (invokeOpcode kind :: (Bytes.ofUInt16 index ++ extra), pool)

/-- The distances of a switch, in the order in which they are written from a place on. -/
def wideFixups (place base : Nat) (labels : List Nat) : List Fixup :=
  labels.zipIdx.map fun (label, i) => ⟨place + 4 * i, base, label, true⟩

/-- The last key of a switch of the given number of targets. -/
def lastKey (low : Int32) (count : Nat) : Int32 :=
  low + Int32.ofNat count - 1

/-- A switch over consecutive keys, at an offset that decides how it is aligned. -/
def switchPiece (offset : Nat) (low : Int32) (default : Nat) (targets : List Nat) : Piece :=
  let padding := (4 - (offset + 1) % 4) % 4
  let start := offset + 1 + padding
  { bytes :=
      Opcode.tableswitch :: (List.replicate padding 0 ++ [0, 0, 0, 0] ++ Bytes.ofInt32 low ++
        Bytes.ofInt32 (lastKey low targets.length) ++ List.replicate (4 * targets.length) 0)
    fixups := ⟨start, offset, default, true⟩ :: wideFixups (start + 12) offset targets }

/-- The piece that a statement lays at an offset, and the pool with what it needs. -/
def piece (pool : Pool) (offset : Nat) : Statement → Piece × Pool
  | .plain op => (.ofBytes [op], pool)
  | .slot op slot => (.ofBytes (slotBytes op slot), pool)
  | .increment slot delta => (.ofBytes (incrementBytes slot delta), pool)
  | .pushInt value =>
    let (bytes, pool) := intBytes pool value
    (.ofBytes bytes, pool)
  | .pushString text =>
    let (index, pool) := pool.string text
    (.ofBytes (constantBytes index), pool)
  | .bind _ => (.ofBytes [], pool)
  | .jump op label => (⟨[op, 0, 0], [⟨offset + 1, offset, label, false⟩]⟩, pool)
  | .tableSwitch low default targets => (switchPiece offset low default targets, pool)
  | .invoke kind owner name descriptor =>
    let (bytes, pool) := invokeBytes pool kind owner name descriptor
    (.ofBytes bytes, pool)
  | .invokeDynamic name descriptor =>
    let (bytes, pool) := dynamicBytes pool name descriptor
    (.ofBytes bytes, pool)
  | .field op owner name descriptor =>
    let (index, pool) := pool.fieldRef owner name descriptor
    (.ofBytes (op :: Bytes.ofUInt16 index), pool)
  | .type op name =>
    let (index, pool) := pool.classEntry name
    (.ofBytes (op :: Bytes.ofUInt16 index), pool)
  | .handler .. => (.ofBytes [], pool)

/-- A body in the making: the code so far, the distances to be filled in with the latest in front,
and the offsets of the labels that are bound. -/
structure Draft where
  pool : Pool
  code : Array UInt8
  fixups : List Fixup
  labels : Std.HashMap Nat Nat

/-- A body without statements. -/
def Draft.start (pool : Pool) : Draft := ⟨pool, #[], [], ∅⟩

/-- Adds a statement at the end. A label that is bound again stands for its latest place. -/
def Draft.add (d : Draft) (s : Statement) : Draft :=
  let offset := d.code.size
  let (piece, pool) := piece d.pool offset s
  { pool := pool
    code := piece.bytes.foldl Array.push d.code
    fixups := piece.fixups.reverse ++ d.fixups
    labels := match s with
      | .bind label => d.labels.insert label offset
      | _ => d.labels }

def resolve (labels : Std.HashMap Nat Nat) (label : Nat) : Except EncodeError Nat :=
  match labels[label]? with
  | some offset => .ok offset
  | none => .error (.unboundLabel label)

/-- Replaces the bytes from a position on. -/
def patch (code : Array UInt8) (place : Nat) : Bytes → Array UInt8
  | [] => code
  | b :: bytes => patch (code.setIfInBounds place b) (place + 1) bytes

/-- Fills in distances, in order. A short field must be wide enough for its distance. -/
def fill (labels : Std.HashMap Nat Nat) (code : Array UInt8) :
    List Fixup → Except EncodeError (Array UInt8)
  | [] => .ok code
  | f :: rest =>
    match resolve labels f.label with
    | .error e => .error e
    | .ok offset =>
      let delta := (offset : Int) - f.base
      if f.wide then
        fill labels (patch code f.place (Bytes.ofInt32 (Int32.ofInt delta))) rest
      else if -32768 ≤ delta ∧ delta ≤ 32767 then
        fill labels (patch code f.place (Bytes.ofInt16 (Int16.ofInt delta))) rest
      else .error (.jumpRange delta)

/-- The handlers that statements declare, in order. -/
def handlers (labels : Std.HashMap Nat Nat) :
    List Statement → Except EncodeError (List Handler)
  | [] => .ok []
  | .handler start stop handler catchType :: rest => do
    let start ← resolve labels start
    let stop ← resolve labels stop
    let handler ← resolve labels handler
    let rest ← handlers labels rest
    return ⟨start, stop, handler, catchType⟩ :: rest
  | _ :: rest => handlers labels rest

/-- The body that statements stand for, with limits still at zero, and the pool with what it
needs. -/
def assemble (pool : Pool) (statements : List Statement) :
    Except EncodeError (MethodBody × Pool) := do
  let d := statements.foldl Draft.add (Draft.start pool)
  let code ← fill d.labels d.code d.fixups.reverse
  let handlers ← handlers d.labels statements
  return (⟨0, 0, code.toList, handlers, []⟩, d.pool)

end Assembler

end ClassAtlas
