import ClassAtlas.Bytes.Basic

/-!
Numbers with the low byte first, and byte strings that are taken apart from the front.
-/

namespace ClassAtlas.Bytes

/-- The lowest bytes of a number, low byte first. -/
def little : (width n : Nat) → Bytes
  | 0, _ => []
  | width + 1, n => n.toUInt8 :: little width (n / 256)

/-- The number with these bytes, low byte first. -/
def ofLittle (bytes : Bytes) : Nat :=
  bytes.foldr (fun b n => b.toNat + 256 * n) 0

/-- The first `n` bytes and those behind them, if there are as many. -/
def split? : (n : Nat) → Bytes → Option (Bytes × Bytes)
  | 0, bytes => some ([], bytes)
  | _ + 1, [] => none
  | n + 1, b :: bytes => (split? n bytes).map fun (taken, rest) => (b :: taken, rest)

/-- The bytes of an array from a position on, as many of the given number as there are. -/
def window (a : Array UInt8) (start length : Nat) : Bytes :=
  (a.extract start (start + length)).toList

end ClassAtlas.Bytes
