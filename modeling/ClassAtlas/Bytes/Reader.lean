import ClassAtlas.Bytes.Basic
import ClassAtlas.Error

/-!
Reading byte strings from the front. A reader takes what it needs from a cursor or fails with the
position that it had reached; the cursor then stays there.
-/

namespace ClassAtlas

/-- A position in a byte string, with the name under which failures are reported. -/
structure Cursor where
  label : String
  rest : Bytes
  position : Nat
  deriving DecidableEq, Repr

def Cursor.start (label : String) (bytes : Bytes) : Cursor :=
  ⟨label, bytes, 0⟩

/-- A step that takes bytes from a cursor and yields a value, or fails. -/
abbrev Reader := EStateM DecodeError Cursor

namespace Reader

variable {α : Type}

/-- Fails for the given reason at the current position. -/
def fail (reason : Reason) : Reader α := fun c =>
  .error ⟨c.label, .located reason c.position⟩ c

/-- Runs a reader on a whole byte string; what it leaves unread does not matter. -/
def run (r : Reader α) (label : String) (bytes : Bytes) : Except DecodeError α :=
  match r (Cursor.start label bytes) with
  | .ok a _ => .ok a
  | .error e _ => .error e

def take (n : Nat) : Reader Bytes := fun c =>
  let taken := c.rest.take n
  if taken.length < n then fail (.endOfData n) c
  else .ok taken { c with rest := c.rest.drop n, position := c.position + n }

/-- The next byte. -/
def u8 : Reader UInt8 := fun c =>
  match c.rest with
  | a :: rest => .ok a { c with rest := rest, position := c.position + 1 }
  | _ => fail (.endOfData 1) c

/-- The next two bytes as a number. -/
def u16 : Reader UInt16 := fun c =>
  match c.rest with
  | a :: b :: rest => .ok (Bytes.toUInt16 a b) { c with rest := rest, position := c.position + 2 }
  | _ => fail (.endOfData 2) c

/-- The next four bytes as a number. -/
def u32 : Reader UInt32 := fun c =>
  match c.rest with
  | w :: x :: y :: z :: rest =>
    .ok (Bytes.toUInt32 w x y z) { c with rest := rest, position := c.position + 4 }
  | _ => fail (.endOfData 4) c

/-- The next eight bytes as a number, read in two halves. -/
def u64 : Reader UInt64 := do
  let high ← u32
  let low ← u32
  return high.toUInt64 <<< 32 ||| low.toUInt64

/-- The number of bytes before the cursor. -/
def position : Reader Nat := fun c => .ok c.position c

/-- Whether everything has been read. -/
def atEnd : Reader Bool := fun c => .ok c.rest.isEmpty c

/-- The number of bytes after the cursor. -/
def remaining : Reader Nat := fun c => .ok c.rest.length c

/-- The values read so far, in reverse, followed by those that `n` more runs of a reader yield. -/
@[specialize] def manyFrom (r : Reader α) : Nat → List α → Reader (List α)
  | 0, acc => fun c => .ok acc.reverse c
  | n + 1, acc => fun c =>
    match r c with
    | .ok a c => manyFrom r n (a :: acc) c
    | .error e c => .error e c

/-- The values that `n` runs of a reader yield. -/
@[inline] def many (n : Nat) (r : Reader α) : Reader (List α) :=
  manyFrom r n []

/-- A value that is known without reading, or its failure. -/
def lift (e : Except DecodeError α) : Reader α := fun c =>
  match e with
  | .ok a => .ok a c
  | .error e => .error e c

/-- A looked-up value. A failed look-up is reported at the current position, with its full text. -/
def liftLocated (e : Except DecodeError α) : Reader α := fun c =>
  match e with
  | .ok a => .ok a c
  | .error e => fail (.failed e.subject e.reason) c

end Reader

end ClassAtlas
