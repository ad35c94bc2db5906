import ClassAtlas.Bytes.Reader
import ClassAtlas.Pool.Basic
import ClassAtlas.Text.ModifiedUtf8

/-!
The file form of constant pools: the number of slots, then one tagged record for each entry. The
second slot of a wide entry has no record.
-/

namespace ClassAtlas

namespace Constant

/-- Reads one record. -/
def read : Reader Constant := do
  match ← Reader.u8 with
  | 1 =>
    let length ← Reader.u16
    return utf8 (ModifiedUtf8.decode (← Reader.take length.toNat))
  | 3 => return integer (← Reader.u32).toInt32
  | 4 => return float (← Reader.u32)
  | 5 => return long (← Reader.u64).toInt64
  | 6 => return double (← Reader.u64)
  | 7 => return .classRef (← Reader.u16)
  | 8 => return string (← Reader.u16)
  | 9 => return fieldRef (← Reader.u16) (← Reader.u16)
  | 10 => return methodRef (← Reader.u16) (← Reader.u16)
  | 11 => return interfaceMethodRef (← Reader.u16) (← Reader.u16)
  | 12 => return nameAndType (← Reader.u16) (← Reader.u16)
  | 15 => return methodHandle (← Reader.u8) (← Reader.u16)
  | 16 => return methodType (← Reader.u16)
  | 17 => return dynamic (← Reader.u16) (← Reader.u16)
  | 18 => return invokeDynamic (← Reader.u16) (← Reader.u16)
  | 19 => return module (← Reader.u16)
  | 20 => return package (← Reader.u16)
  | tag => Reader.fail (.unknownTag tag)

/-- The record of an entry. A text longer than its length field can say is refused. -/
def encode : Constant → Except EncodeError Bytes
  | utf8 s =>
    let bytes := ModifiedUtf8.encode s
    let length := bytes.length
    if length < 65536 then .ok (1 :: Bytes.ofUInt16 length.toUInt16 ++ bytes)
    else .error (.longText length)
  | integer v => .ok (3 :: Bytes.ofInt32 v)
  | float bits => .ok (4 :: Bytes.ofUInt32 bits)
  | long v => .ok (5 :: Bytes.ofUInt64 v.toUInt64)
  | double bits => .ok (6 :: Bytes.ofUInt64 bits)
  | .classRef i => .ok (Bytes.tagged 7 [i])
  | string i => .ok (Bytes.tagged 8 [i])
  | fieldRef a b => .ok (Bytes.tagged 9 [a, b])
  | methodRef a b => .ok (Bytes.tagged 10 [a, b])
  | interfaceMethodRef a b => .ok (Bytes.tagged 11 [a, b])
  | nameAndType a b => .ok (Bytes.tagged 12 [a, b])
  | methodHandle kind i => .ok (15 :: kind :: Bytes.ofUInt16 i)
  | methodType i => .ok (Bytes.tagged 16 [i])
  | dynamic a b => .ok (Bytes.tagged 17 [a, b])
  | invokeDynamic a b => .ok (Bytes.tagged 18 [a, b])
  | module i => .ok (Bytes.tagged 19 [i])
  | package i => .ok (Bytes.tagged 20 [i])
  | unusable => .ok []

end Constant

namespace Pool

/-- Reads records until the given number of slots is filled. -/
def readEntries : (slots : Nat) → Pool → Reader Pool
  | 0, pool => pure pool
  | slots + 1, pool => fun cursor =>
    match Constant.read cursor with
    | .error e cursor => .error e cursor
    | .ok c cursor =>
      if c.isWide then
        match slots with
        | 0 => Reader.fail .wideOverflow cursor
        | slots + 1 => readEntries slots (pool.push c) cursor
      else readEntries slots (pool.push c) cursor

/-- Reads a pool with its slot count. -/
def read : Reader Pool := do
  let count ← Reader.u16
  if count = 0 then Reader.fail .emptyPool
  else readEntries (count.toNat - 1) empty

/-- The file form of a pool, whose slots must be countable in 16 bits. -/
def encode (p : Pool) : Except EncodeError Bytes :=
  if p.slotCount < 65536 then
    match p.entries.toList.mapM Constant.encode with
    | .ok records => .ok (Bytes.ofUInt16 p.slotCount.toUInt16 ++ records.flatten)
    | .error e => .error e
  else .error (.poolOverflow p.slotCount)

end Pool

end ClassAtlas
