import Std.Data.HashMap
import Std.Data.HashSet
import ClassAtlas.Archive.Record

/-!
Where the directory of an archive is. Behind it stands its end, which counts the records and says
where they start; it is looked for from the back of the file, and an end that leads nowhere is
passed over. Offsets count from the start of the archive, which need not be that of the file.
-/

namespace ClassAtlas.Zip

/-- What the end of a directory says, or an end with long numbers. -/
structure DirectoryEnd where
  disk : Nat
  directoryDisk : Nat
  /-- The number of records on this disk. -/
  countHere : Nat
  count : Nat
  /-- Where the directory starts, counted from the start of the archive. -/
  offset : Nat
  /-- Whether its counts and versions go together. -/
  sound : Bool
  deriving DecidableEq, Repr, Inhabited

/-- Reads the end of a directory, which a comment follows. -/
def readEnd : PartReader DirectoryEnd := do
  let mark ← bytes 4
  require (mark == endMark) .damaged
  let disk ← number 2
  let directoryDisk ← number 2
  let countHere ← number 2
  let count ← number 2
  let _ ← number 4
  let offset ← number 4
  let commentLength ← number 2
  let _ ← bytes commentLength
  return ⟨disk, directoryDisk, countHere, count, offset, true⟩

/-- Reads an end with long numbers that takes up the given number of bytes. -/
def readLongEnd (length : Nat) : PartReader DirectoryEnd := do
  let mark ← bytes 4
  require (mark == longEndMark) .damaged
  let behind ← number 8
  require (44 ≤ behind && behind + 12 == length) .damaged
  let maker ← number 2
  let needed ← number 2
  let disk ← number 4
  let directoryDisk ← number 4
  let countHere ← number 8
  let count ← number 8
  let _ ← number 8
  let offset ← number 8
  return ⟨disk, directoryDisk, countHere, count, offset, countHere ≤ count && needed ≤ maker⟩

/-- Where an end with long numbers is said to be. -/
structure Pointer where
  /-- The disk of the directory. -/
  disk : Nat
  /-- Where the end starts, counted from the start of the archive. -/
  offset : Nat
  /-- How many disks there are. -/
  disks : Nat
  deriving DecidableEq, Repr, Inhabited

/-- Reads the pointer to an end with long numbers. -/
def readPointer : PartReader Pointer := do
  let mark ← bytes 4
  require (mark == pointerMark) .damaged
  return ⟨← number 4, ← number 8, ← number 4⟩

/-- What a reader makes of up to `length` bytes at a position. -/
def readAt? {α : Type} (a : Array UInt8) (position length : Nat) (r : PartReader α) : Option α :=
  match r (Bytes.window a position length) with
  | .ok (x, _) => some x
  | .error _ => none

/-- Where a directory is: the start of the archive, that of the directory, and the number of its
records. -/
structure Location where
  base : Nat
  start : Nat
  count : Nat
  deriving DecidableEq, Repr, Inhabited

def hasMark (a : Array UInt8) (mark : Bytes) (position : Nat) : Bool :=
  Bytes.window a position mark.length == mark

/-- The positions of four bytes from one position on up to another. -/
def positions (start limit : Nat) : List Nat :=
  List.range' start (limit - 3 - start)

/-- Where the directory is whose end stands at a position. Its first record is looked for from where
it should be up to the end; how far it lies behind that place, so far lies the start of the archive
behind that of the file. -/
def locate? (a : Array UInt8) (position : Nat) (e : DirectoryEnd) : Option Location :=
  if e.count = 0 then
    let base := position - e.offset
    some ⟨base, base + e.offset, e.countHere⟩
  else
    ((positions e.offset position).find? (hasMark a recordMark)).map fun start =>
      ⟨start - e.offset, start, e.countHere⟩

/-- What the end with long numbers at a position says, if a pointer at another position can mean it.
There must be room for the directory in front of it. -/
def longEnd? (a : Array UInt8) (p : Pointer) (pointer position : Nat) : Option DirectoryEnd :=
  (readAt? a position 56 (readLongEnd (pointer - position))).filter fun e =>
    e.directoryDisk == p.disk && 46 * e.count + e.offset ≤ position

/-- Where the directory is whose end with long numbers a pointer at a position means. -/
def locateLong? (a : Array UInt8) (p : Pointer) (pointer : Nat) :
    Option (DirectoryEnd × Location) :=
  if p.disks ≤ 1 then
    (positions p.offset pointer).findSome? fun position =>
      (longEnd? a p pointer position).map fun e =>
        let base := position - p.offset
        (e, ⟨base, base + e.offset, e.count⟩)
  else none

/-- The length of a pointer to an end with long numbers. -/
def pointerLength : Nat := 20

/-- The pointer in front of an end that leaves numbers to an end with long ones. -/
def pointer? (a : Array UInt8) (position : Nat) (e : DirectoryEnd) : Option Pointer :=
  if (e.count = 65535 ∨ e.offset = tooLong) ∧ pointerLength ≤ position then
    readAt? a (position - pointerLength) pointerLength readPointer
  else none

/-- The records of the directory whose end stands at a position. -/
def directoryAt? (a : Array UInt8) (position : Nat) : Option (List Record) := do
  let e ← readAt? a position (22 + 65535) readEnd
  let (e, place) ←
    match pointer? a position e with
    | some p => locateLong? a p (position - pointerLength)
    | none => (locate? a position e).map fun place => (e, place)
  if e.sound ∧ e.disk = e.directoryDisk then
    match readRecords place.base place.count [] (Bytes.window a place.start a.size) with
    | .ok records => return records
    | .error _ => none
  else none

/-- The records of the last directory whose end stands in front of a position. -/
def directoryBefore (a : Array UInt8) : (position : Nat) → Except ArchiveError (List Record)
  | 0 => .error .noDirectory
  | position + 1 =>
    if hasMark a endMark position then
      match directoryAt? a position with
      | some records => .ok records
      | none => directoryBefore a position
    else directoryBefore a position

/-- The last records of the names that have not been seen, in the order of first occurrence. -/
def keepFrom (last : Std.HashMap String Record) (seen : Std.HashSet String) :
    List Record → List Record
  | [] => []
  | r :: rest =>
    if seen.contains r.name then keepFrom last seen rest
    else last.getD r.name r :: keepFrom last (seen.insert r.name) rest

/-- One record for every name, in the order in which the names occur first; of several records of
one name the last counts. -/
def keepLast (records : List Record) : List Record :=
  keepFrom (records.foldl (fun m r => m.insert r.name r) ∅) ∅ records

def directory (a : Array UInt8) : Except ArchiveError (List Record) :=
  (directoryBefore a a.size).map keepLast

end ClassAtlas.Zip
