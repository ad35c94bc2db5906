/-!
Byte strings and the big-endian forms of numbers.
-/

namespace ClassAtlas

/-- The content of a file, an archive entry or an attribute. -/
abbrev Bytes := List UInt8

namespace Bytes

/-- A 16-bit number, high byte first. -/
def ofUInt16 (v : UInt16) : Bytes :=
  [(v >>> 8).toUInt8, v.toUInt8]

/-- A 32-bit number, high byte first. -/
def ofUInt32 (v : UInt32) : Bytes :=
  [(v >>> 24).toUInt8, (v >>> 16).toUInt8, (v >>> 8).toUInt8, v.toUInt8]

/-- A 64-bit number, high byte first. -/
def ofUInt64 (v : UInt64) : Bytes :=
  ofUInt32 (v >>> 32).toUInt32 ++ ofUInt32 v.toUInt32

/-- A signed 16-bit number in two's complement, high byte first. -/
def ofInt16 (v : Int16) : Bytes :=
  ofUInt16 v.toUInt16

/-- A signed 32-bit number in two's complement, high byte first. -/
def ofInt32 (v : Int32) : Bytes :=
  ofUInt32 v.toUInt32

def tagged (tag : UInt8) (operands : List UInt16) : Bytes :=
  tag :: operands.flatMap ofUInt16

/-- The 16-bit number with these two bytes. -/
def toUInt16 (a b : UInt8) : UInt16 :=
  a.toUInt16 <<< 8 ||| b.toUInt16

/-- The 32-bit number with these four bytes. -/
def toUInt32 (a b c d : UInt8) : UInt32 :=
  a.toUInt32 <<< 24 ||| b.toUInt32 <<< 16 ||| c.toUInt32 <<< 8 ||| d.toUInt32

/-- The byte string with the bytes from position `start` replaced by `new`. -/
def overwrite (bytes : Bytes) (start : Nat) (new : Bytes) : Bytes :=
  bytes.take start ++ new ++ bytes.drop (start + new.length)

end Bytes

end ClassAtlas
