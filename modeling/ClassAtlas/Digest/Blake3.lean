import ClassAtlas.Bytes.Basic

/-!
The BLAKE3 hash of a byte string. The input is cut into chunks of 1024 bytes, each chunk is
compressed block by block, and a binary tree over the chunks, with full subtrees to the left, is
folded into the digest.
-/

namespace ClassAtlas.Blake3

/-- The initial chaining value. -/
def iv : Array UInt32 := #[
  0x6A09E667, 0xBB67AE85, 0x3C6EF372, 0xA54FF53A, 0x510E527F, 0x9B05688C, 0x1F83D9AB, 0x5BE0CD19]

/-- Where each message word of the next round comes from. -/
def permutation : Array Nat := #[2, 6, 3, 10, 7, 0, 4, 13, 1, 11, 12, 5, 9, 14, 15, 8]

/-- The first block of a chunk. -/
def chunkStart : UInt32 := 1

/-- The last block of a chunk. -/
def chunkEnd : UInt32 := 2

/-- A block that joins two subtrees. -/
def parentFlag : UInt32 := 4

/-- The last compression of all. -/
def rootFlag : UInt32 := 8

/-- Rotation to the right. -/
def rotateRight (x n : UInt32) : UInt32 :=
  x >>> n ||| x <<< (32 - n)

/-- The word at a position, zero outside the array. -/
def word (a : Array UInt32) (i : Nat) : UInt32 :=
  a.getD i 0

/-- Mixes two message words into four words of the state. -/
def mix (s : Array UInt32) (a b c d : Nat) (x y : UInt32) : Array UInt32 :=
  let va := word s a + word s b + x
  let vd := rotateRight (word s d ^^^ va) 16
  let vc := word s c + vd
  let vb := rotateRight (word s b ^^^ vc) 12
  let va := va + vb + y
  let vd := rotateRight (vd ^^^ va) 8
  let vc := vc + vd
  let vb := rotateRight (vb ^^^ vc) 7
  (((s.setIfInBounds a va).setIfInBounds b vb).setIfInBounds c vc).setIfInBounds d vd

/-- One round: the columns, then the diagonals. -/
def round (s m : Array UInt32) : Array UInt32 :=
  let s := mix s 0 4 8 12 (word m 0) (word m 1)
  let s := mix s 1 5 9 13 (word m 2) (word m 3)
  let s := mix s 2 6 10 14 (word m 4) (word m 5)
  let s := mix s 3 7 11 15 (word m 6) (word m 7)
  let s := mix s 0 5 10 15 (word m 8) (word m 9)
  let s := mix s 1 6 11 12 (word m 10) (word m 11)
  let s := mix s 2 7 8 13 (word m 12) (word m 13)
  mix s 3 4 9 14 (word m 14) (word m 15)

/-- The given number of rounds, with the message words permuted from one to the next. -/
def rounds : Nat → Array UInt32 → Array UInt32 → Array UInt32
  | 0, s, _ => s
  | n + 1, s, m => rounds n (round s m) (permutation.map (word m))

/-- A compression that is still to be done. -/
structure Node where
  chaining : Array UInt32
  block : Array UInt32
  counter : Nat
  length : Nat
  flags : UInt32

/-- The chaining value that a node yields, with further flags set. -/
def Node.compress (node : Node) (extra : UInt32) : Array UInt32 :=
  let s := rounds 7
    (node.chaining ++ iv.extract 0 4 ++
      #[node.counter.toUInt32, (node.counter / 4294967296).toUInt32, node.length.toUInt32,
        node.flags ||| extra])
    node.block
  (Array.range 8).map fun i => word s i ^^^ word s (i + 8)

/-- The little-endian words of a block, filled with zeros to sixteen. -/
def blockWords (bytes : Bytes) : Array UInt32 :=
  let a := bytes.toArray
  (Array.range 16).map fun i =>
    (a.getD (4 * i) 0).toUInt32 ||| (a.getD (4 * i + 1) 0).toUInt32 <<< 8 |||
      (a.getD (4 * i + 2) 0).toUInt32 <<< 16 ||| (a.getD (4 * i + 3) 0).toUInt32 <<< 24

/-- The last node of a chunk that starts from the given chaining value. -/
def chunkNode (counter : Nat) (chaining : Array UInt32) (flags : UInt32) (bytes : Bytes) : Node :=
  let block := bytes.take 64
  if bytes.length ≤ 64 then
    ⟨chaining, blockWords block, counter, block.length, flags ||| chunkEnd⟩
  else
    let node : Node := ⟨chaining, blockWords block, counter, 64, flags⟩
    chunkNode counter (node.compress 0) 0 (bytes.drop 64)
termination_by bytes.length
decreasing_by
  simp only [List.length_drop]
  omega

/-- Bytes in the left subtree of an input of more than one chunk: the largest power of two of
chunks that leaves something to the right. -/
def leftLength (length : Nat) : Nat :=
  Nat.pow 2 (Nat.log2 ((length - 1) / 1024)) * 1024

/-- The root of the tree over the bytes, whose first chunk has the given number. Depth bounds the
height of the tree. -/
def treeNode : (depth : Nat) → (counter : Nat) → Bytes → Node
  | 0, counter, bytes => chunkNode counter iv chunkStart bytes
  | depth + 1, counter, bytes =>
    if bytes.length ≤ 1024 then chunkNode counter iv chunkStart bytes
    else
      let left := leftLength bytes.length
      let l := treeNode depth counter (bytes.take left)
      let r := treeNode depth (counter + left / 1024) (bytes.drop left)
      ⟨iv, l.compress 0 ++ r.compress 0, 0, 64, parentFlag⟩

def hash (bytes : Bytes) : Bytes :=
  let depth := Nat.log2 (bytes.length / 1024 + 1) + 1
  ((treeNode depth 0 bytes).compress rootFlag).toList.flatMap fun (w : UInt32) =>
    [w.toUInt8, (w >>> 8).toUInt8, (w >>> 16).toUInt8, (w >>> 24).toUInt8]

theorem Node.compress_size (node : Node) (extra : UInt32) : (node.compress extra).size = 8 := by
  rw [Node.compress, Array.size_map, Array.size_range]

theorem hash_length (bytes : Bytes) : (hash bytes).length = 32 := by
  rw [hash, List.length_flatMap]
  simp [List.map_const', Node.compress_size]

end ClassAtlas.Blake3
