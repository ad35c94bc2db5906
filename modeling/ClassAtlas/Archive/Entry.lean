import ClassAtlas.Bytes.Basic

/-!
Archives are lists of named entries. Every file form of them keeps a checksum of the data of an
entry, by which damage is found.
-/

namespace ClassAtlas

structure ArchiveEntry where
  name : String
  data : Bytes
  deriving DecidableEq, Repr, Inhabited

namespace Zip

/-- Whether an entry of this name stands for a directory. -/
def namesDirectory (name : String) : Bool :=
  name.endsWith "/" || name.endsWith "\\"

/-- One step of the checksum for each of the given number of bits. -/
def checksumBits : Nat → UInt32 → UInt32
  | 0, c => c
  | n + 1, c => checksumBits n (if c &&& 1 == 1 then (c >>> 1) ^^^ 0xEDB88320 else c >>> 1)

/-- The checksum of a byte string: the remainder of a division of polynomials over bits. -/
def checksum (data : Bytes) : UInt32 :=
  (data.foldl (fun c (b : UInt8) => checksumBits 8 (c ^^^ b.toUInt32)) 0xFFFFFFFF) ^^^ 0xFFFFFFFF

/-- The first bytes of an entry. -/
def entryMark : Bytes := [0x50, 0x4B, 3, 4]

/-- The first bytes of a directory record. -/
def recordMark : Bytes := [0x50, 0x4B, 1, 2]

/-- The first bytes of the end of a directory. -/
def endMark : Bytes := [0x50, 0x4B, 5, 6]

/-- The first bytes of the end of a directory with long numbers. -/
def longEndMark : Bytes := [0x50, 0x4B, 6, 6]

/-- The first bytes of the pointer to an end with long numbers. -/
def pointerMark : Bytes := [0x50, 0x4B, 6, 7]

/-- The number that stands in a record for one that is too long for it. -/
def tooLong : Nat := 0xFFFFFFFF

/-- The flag of names in UTF-8, among the flags of an entry. -/
def utf8Flag : Nat := 0x0800

end Zip

end ClassAtlas
