import ClassAtlas.Bytes.Basic

/-!
A small checksum of 64 bits for telling long byte strings apart at a glance: for every byte the sum
is combined with it and multiplied by a fixed prime.
-/

namespace ClassAtlas.Fnv

/-- The checksum of no bytes. -/
def basis : UInt64 := 0xcbf29ce484222325

/-- The factor of each step. -/
def prime : UInt64 := 0x100000001b3

def hash (bytes : Bytes) : UInt64 :=
  bytes.foldl (fun h b => (h ^^^ b.toUInt64) * prime) basis

end ClassAtlas.Fnv
