import ClassAtlas.Bytes.Basic

/-!
Decompression of deflated data: blocks that are stored, or coded with fixed or transmitted prefix
codes over literals and references to earlier output. A transmitted code of more than one word must
be complete, so that no bits are without meaning.
-/

namespace ClassAtlas.Inflate

/-- What is left of the input: whole bytes, and bits of the byte before them. -/
structure BitCursor where
  rest : Bytes
  buffer : Nat
  count : Nat

/-- A step that takes bits from the front of the input, or fails. -/
abbrev BitReader := StateT BitCursor Option

/-- The next bit; bytes are used from their low end. -/
def bit : BitReader Nat := fun c =>
  match c.count, c.rest with
  | n + 1, _ => some (c.buffer % 2, ⟨c.rest, c.buffer / 2, n⟩)
  | 0, b :: rest => some (b.toNat % 2, ⟨rest, b.toNat / 2, 7⟩)
  | 0, [] => none

/-- The next bits as a number, low bit first. -/
def bits : Nat → BitReader Nat
  | 0 => pure 0
  | n + 1 => do
    let low ← bit
    let high ← bits n
    return low + 2 * high

/-- Skips what is left of the current byte. -/
def align : BitReader Unit := fun c => some ((), ⟨c.rest, 0, 0⟩)

/-- The next whole bytes. -/
def bytes (n : Nat) : BitReader Bytes := fun c =>
  let taken := c.rest.take n
  if taken.length < n then none else some (taken, ⟨c.rest.drop n, 0, 0⟩)

/-- A prefix code: how many symbols have words of each length, and the symbols in the order of their
words. -/
structure PrefixCode where
  counts : Array Nat
  symbols : Array Nat

/-- The longest word of a prefix code. -/
def maxLength : Nat := 15

/-- How many words of the greatest length begin with a word of the given length. -/
def share (length : Nat) : Nat :=
  if length = 0 then 0 else 1 <<< (maxLength - length)

/-- How many words of the greatest length begin with a word of one of the given lengths, if no word
begins with another. -/
def coverage (lengths : List Nat) : Nat :=
  lengths.foldl (fun n length => n + share length) 0

/-- Whether a code with the given lengths leaves no bits without meaning. -/
def isComplete (lengths : List Nat) : Bool :=
  coverage lengths == 1 <<< maxLength

/-- Whether lengths can be those of a code for data: it is complete, or has at most one word. -/
def isUsable (lengths : List Nat) : Bool :=
  isComplete lengths || lengths.countP (· != 0) ≤ 1

/-- The code in which every symbol has a word of the given length, or none for length zero. Words of
one length are given out in the order of symbols. -/
def PrefixCode.ofLengths (lengths : List Nat) : PrefixCode where
  counts := ((List.range (maxLength + 1)).map fun n => lengths.countP (· == n)).toArray
  symbols := ((List.range maxLength).flatMap fun n =>
    (lengths.zipIdx.filter fun (length, _) => length == n + 1).map fun (_, symbol) =>
      symbol).toArray

/-- Reads on in a word of which `value` is known, where words of the current length start at `first`
and belong to the symbols from `index` on. -/
def PrefixCode.readFrom (code : PrefixCode) : (left : Nat) → (value first index : Nat) →
    BitReader Nat
  | 0, _, _, _ => fun _ => none
  | left + 1, value, first, index => do
    let value := value + (← bit)
    let count := code.counts.getD (maxLength - left) 0
    if value < first + count then
      match code.symbols[index + (value - first)]? with
      | some symbol => return symbol
      | none => fun _ => none
    else readFrom code left (2 * value) (2 * (first + count)) (index + count)

/-- Reads a word and yields its symbol. -/
def PrefixCode.read (code : PrefixCode) : BitReader Nat :=
  code.readFrom maxLength 0 0 0

/-- Shortest length that a length symbol stands for, and the number of bits that add to it. -/
def lengthTable : Array (Nat × Nat) := #[
  (3, 0), (4, 0), (5, 0), (6, 0), (7, 0), (8, 0), (9, 0), (10, 0), (11, 1), (13, 1), (15, 1),
  (17, 1), (19, 2), (23, 2), (27, 2), (31, 2), (35, 3), (43, 3), (51, 3), (59, 3), (67, 4),
  (83, 4), (99, 4), (115, 4), (131, 5), (163, 5), (195, 5), (227, 5), (258, 0)]

/-- Shortest distance that a distance symbol stands for, and the number of bits that add to it. -/
def distanceTable : Array (Nat × Nat) := #[
  (1, 0), (2, 0), (3, 0), (4, 0), (5, 1), (7, 1), (9, 2), (13, 2), (17, 3), (25, 3), (33, 4),
  (49, 4), (65, 5), (97, 5), (129, 6), (193, 6), (257, 7), (385, 7), (513, 8), (769, 8),
  (1025, 9), (1537, 9), (2049, 10), (3073, 10), (4097, 11), (6145, 11), (8193, 12), (12289, 12),
  (16385, 13), (24577, 13)]

/-- The number that a symbol of a table stands for, with its further bits. -/
def extended (table : Array (Nat × Nat)) (symbol : Nat) : BitReader Nat := do
  match table[symbol]? with
  | some (base, extra) => return base + (← bits extra)
  | none => fun _ => none

/-- The byte that was put out the given number of bytes ago. Zeros stand before the output. -/
def earlier (out : Array UInt8) (distance : Nat) : UInt8 :=
  if distance ≤ out.size then out.getD (out.size - distance) 0 else 0

/-- The output with its last `distance` bytes repeated for `length` bytes. -/
def copyBack (out : Array UInt8) (distance : Nat) : (length : Nat) → Array UInt8
  | 0 => out
  | n + 1 => copyBack (out.push (earlier out distance)) distance n

/-- Reads literals and references up to the end of a block. Every one takes a bit at least. -/
def readSymbols (literals distances : PrefixCode) : (steps : Nat) → Array UInt8 →
    BitReader (Array UInt8)
  | 0, _ => fun _ => none
  | steps + 1, out => do
    let symbol ← literals.read
    if symbol < 256 then readSymbols literals distances steps (out.push symbol.toUInt8)
    else if symbol = 256 then return out
    else
      let length ← extended lengthTable (symbol - 257)
      let distance ← extended distanceTable (← distances.read)
      readSymbols literals distances steps (copyBack out distance length)

/-- The code of literals that needs no transmission. -/
def fixedLiterals : PrefixCode :=
  .ofLengths (List.replicate 144 8 ++ List.replicate 112 9 ++ List.replicate 24 7 ++
    List.replicate 8 8)

/-- The code of distances that needs no transmission. -/
def fixedDistances : PrefixCode :=
  .ofLengths (List.replicate 30 5)

/-- The order in which the lengths of the code of lengths are transmitted. -/
def lengthOrder : List Nat :=
  [16, 17, 18, 0, 8, 7, 9, 6, 10, 5, 11, 4, 12, 3, 13, 2, 14, 1, 15]

/-- Reads `count` lengths, in reverse behind those read so far. Every symbol adds one at least. -/
def readLengths (code : PrefixCode) (count : Nat) : (steps : Nat) → List Nat →
    BitReader (List Nat)
  | 0, acc => if acc.length = count then pure acc.reverse else fun _ => none
  | steps + 1, acc => do
    if acc.length ≥ count then
      if acc.length = count then return acc.reverse else fun _ => none
    else
      let symbol ← code.read
      if symbol < 16 then readLengths code count steps (symbol :: acc)
      else if symbol = 16 then
        let n ← bits 2
        match acc with
        | last :: _ => readLengths code count steps (List.replicate (3 + n) last ++ acc)
        | [] => fun _ => none
      else if symbol = 17 then
        let n ← bits 3
        readLengths code count steps (List.replicate (3 + n) 0 ++ acc)
      else
        let n ← bits 7
        readLengths code count steps (List.replicate (11 + n) 0 ++ acc)

/-- Goes on if a condition holds. -/
def require (condition : Bool) : BitReader Unit := fun c =>
  if condition then some ((), c) else none

/-- Reads the lengths of the words of the two codes of a block: those of the literals, and those of
the distances. -/
def readLengthLists : BitReader (List Nat × List Nat) := do
  let literalCount := (← bits 5) + 257
  let distanceCount := (← bits 5) + 1
  let lengthCount := (← bits 4) + 4
  require (literalCount ≤ 286 && distanceCount ≤ 30)
  let given ← (List.range lengthCount).mapM fun _ => bits 3
  let pairs := lengthOrder.zip given
  let lengths := (List.range 19).map fun symbol => (pairs.lookup symbol).getD 0
  require (isComplete lengths)
  let total := literalCount + distanceCount
  let all ← readLengths (.ofLengths lengths) total total []
  return (all.take literalCount, all.drop literalCount)

/-- Reads the two codes of a block. -/
def readCodes : BitReader (PrefixCode × PrefixCode) := do
  let (literals, distances) ← readLengthLists
  require (isUsable literals && isUsable distances)
  return (.ofLengths literals, .ofLengths distances)

def readBlock (kind steps : Nat) (out : Array UInt8) : BitReader (Array UInt8) := do
  match kind with
  | 0 =>
    align
    let length ← bits 16
    let complement ← bits 16
    require (length + complement == 65535)
    return out ++ (← bytes length).toArray
  | 1 => readSymbols fixedLiterals fixedDistances steps out
  | 2 =>
    let (literals, distances) ← readCodes
    readSymbols literals distances steps out
  | _ => fun _ => none

/-- Reads blocks up to the last one. Every block takes a bit at least. -/
def readBlocks (steps : Nat) : (blocks : Nat) → Array UInt8 → BitReader (Array UInt8)
  | 0, _ => fun _ => none
  | blocks + 1, out => do
    let last ← bit
    let kind ← bits 2
    let out ← readBlock kind steps out
    if last = 1 then return out else readBlocks steps blocks out

/-- The data that was deflated. -/
def decode? (data : Bytes) : Option Bytes :=
  let steps := 8 * data.length + 1
  ((readBlocks steps steps #[]).run ⟨data, 0, 0⟩).map fun (out, _) => out.toList

end ClassAtlas.Inflate
