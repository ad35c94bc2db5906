import ClassAtlas.Bytes.Basic

/-!
Bytes as hexadecimal digits, two for each, written in lower case and read in either.
-/

namespace ClassAtlas.Hex

/-- The digit for a number below sixteen. -/
def digit (n : UInt8) : Char :=
  if n < 10 then Char.ofNat (48 + n.toNat) else Char.ofNat (87 + n.toNat)

/-- The number that a digit stands for. -/
def value? (c : Char) : Option Nat :=
  if '0' ≤ c ∧ c ≤ '9' then some (c.toNat - 48)
  else if 'a' ≤ c ∧ c ≤ 'f' then some (c.toNat - 87)
  else if 'A' ≤ c ∧ c ≤ 'F' then some (c.toNat - 55)
  else none

def encode (bytes : Bytes) : String :=
  String.ofList (bytes.flatMap fun (b : UInt8) => [digit (b >>> 4), digit (b &&& 15)])

/-- The bytes with the given digits, behind those of `acc` in reverse. -/
def decodeOnto (acc : Bytes) : List Char → Option Bytes
  | [] => some acc.reverse
  | a :: b :: rest =>
    match value? a, value? b with
    | some x, some y => decodeOnto ((16 * x + y).toUInt8 :: acc) rest
    | _, _ => none
  | _ => none

def decode? (text : String) : Option Bytes :=
  decodeOnto [] text.toList

/-- The number with the given digits. -/
def number? (text : String) : Option Nat :=
  text.toList.foldlM (fun n c => (value? c).map (16 * n + ·)) 0

end ClassAtlas.Hex
