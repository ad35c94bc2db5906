import ClassAtlas.Archive.Entry
import ClassAtlas.Archive.Name
import ClassAtlas.Bytes.Little
import ClassAtlas.Error

/-!
Directory records. A record has fields of fixed length, a name, extra fields and a comment; the
extra fields can put a longer number, another name or another packing in place of what the record
says.
-/

namespace ClassAtlas.Zip

/-- A step that takes bytes from the front of a part of an archive, or fails. -/
abbrev PartReader := StateT Bytes (Except ArchiveError)

def bytes (n : Nat) : PartReader Bytes := fun data =>
  match Bytes.split? n data with
  | some (taken, rest) => .ok (taken, rest)
  | none => .error .damaged

def number (width : Nat) : PartReader Nat := fun data =>
  match bytes width data with
  | .ok (taken, rest) => .ok (Bytes.ofLittle taken, rest)
  | .error e => .error e

/-- Goes on if a condition holds. -/
def require (condition : Bool) (error : ArchiveError) : PartReader Unit := fun data =>
  if condition then .ok ((), data) else .error error

/-- What a directory says about an entry. -/
structure Record where
  rawName : Bytes
  name : String
  comment : String
  /-- Whether a password is needed. -/
  encrypted : Bool
  /-- Whether an extra field says how the entry is encrypted. -/
  sealed : Bool
  method : Nat
  checksum : Nat
  /-- The length of the entry as it is stored. -/
  size : Nat
  /-- The length of the entry when it is unpacked. -/
  fullSize : Nat
  /-- Where the entry starts. -/
  start : Nat
  deriving DecidableEq, Repr, Inhabited

/-- The method of entries whose packing is hidden by encryption. -/
def hiddenMethod : Nat := 99

/-- A long number, if it is there; else the number of the record. -/
def longNumber (isThere : Bool) (known : Nat) : PartReader Nat :=
  if isThere then number 8 else pure known

/-- Reads the long numbers of a record: all of them, or those that are too long for the record. -/
def readLongNumbers (r : Record) (length : Nat) : PartReader Record := do
  let all : Bool := 24 ≤ length
  let fullSize ← longNumber (all || r.fullSize == tooLong) r.fullSize
  let size ← longNumber (all || r.size == tooLong) r.size
  let start ← longNumber (all || r.start == tooLong) r.start
  let fields := [r.fullSize, r.size, r.start]
  let read := 8 * if all then 3 else fields.count tooLong
  require (read ≤ length) .damaged
  let _ ← bytes (length - read)
  return { r with fullSize, size, start }

/-- Reads three points in time in one of the ways to write them. -/
def readTimes (length : Nat) : PartReader Unit := do
  require (length == 32) .unsupported
  let _ ← number 4
  let tag ← number 2
  require (tag == 1) .unsupported
  let size ← number 2
  require (size == 24) .unsupported
  let _ ← bytes 24

def timeFlags (flags : Nat) : List Bool :=
  (List.range 8).map flags.testBit

/-- Reads points in time that are flagged. A single one needs no flag, and of others than the first
three nothing is known. -/
def readFlaggedTimes (length : Nat) : PartReader Unit := do
  let flags := timeFlags (← number 1)
  require (length == 5 || length == 1 + 4 * flags.count true) .unsupported
  let _ ← bytes (if length == 5 then 4 else 4 * (flags.take 3).count true)

/-- Reads a text that stands for one that the record has in another form. Their connection is a
checksum of the other form. -/
def readText (length : Nat) (other : Bytes) : PartReader Bytes := do
  let _ ← number 1
  let sum ← number 4
  require (5 ≤ length) .damaged
  let text ← bytes (length - 5)
  require (sum == (checksum other).toNat) .damaged
  return text

def wellFormed (bytes : Bytes) : PartReader String := fun data =>
  match Utf8.decode? bytes with
  | some text => .ok (text, data)
  | none => .error .damaged

def readName (r : Record) (length : Nat) : PartReader Record := do
  let rawName ← readText length r.rawName
  return { r with rawName, name := ← wellFormed rawName }

def readComment (r : Record) (length : Nat) : PartReader Record := do
  return { r with comment := ← wellFormed (← readText length (Utf8.encode r.comment)) }

/-- Reads how an entry is encrypted and packed. -/
def readEncryption (r : Record) (length : Nat) : PartReader Record := do
  require (length == 7) .unsupported
  let version ← number 2
  let vendor ← number 2
  let strength ← number 1
  let method ← number 2
  require (vendor == 0x4541 && (version == 1 || version == 2)) .damaged
  require (1 ≤ strength && strength ≤ 3) .damaged
  return { r with sealed := true, method }

def readExtraField (r : Record) : PartReader Record := do
  let kind ← number 2
  let length ← number 2
  match kind with
  | 0x0001 => readLongNumbers r length
  | 0x000A =>
    readTimes length
    return r
  | 0x5455 =>
    readFlaggedTimes length
    return r
  | 0x6375 => readComment r length
  | 0x7075 => readName r length
  | 0x9901 => readEncryption r length
  | _ =>
    let _ ← bytes length
    return r

/-- The record as extra fields change it. Every field takes a byte at least, and a single byte is no
field. -/
def applyExtra (r : Record) : (steps : Nat) → Bytes → Except ArchiveError Record
  | 0, _ => .ok r
  | steps + 1, extra =>
    if extra.length < 2 then .ok r
    else
      match readExtraField r extra with
      | .ok (r, rest) => applyExtra r steps rest
      | .error e => .error e

/-- The record with its extra fields applied. One that hides its method has to say how. -/
def withExtra (r : Record) (extra : Bytes) : Except ArchiveError Record :=
  match applyExtra r extra.length extra with
  | .error e => .error e
  | .ok changed =>
    if changed.method = hiddenMethod ∧ !changed.sealed then .error .damaged
    else .ok changed

/-- Reads a record, where offsets count from `base`. -/
def readRecord (base : Nat) : PartReader Record := do
  let mark ← bytes 4
  require (mark == recordMark) .damaged
  let _ ← bytes 4
  let flags ← number 2
  let method ← number 2
  let _ ← bytes 4
  let checksum ← number 4
  let size ← number 4
  let fullSize ← number 4
  let nameLength ← number 2
  let extraLength ← number 2
  let commentLength ← number 2
  let _ ← bytes 8
  let start ← number 4
  let rawName ← bytes nameLength
  let extra ← bytes extraLength
  let comment ← bytes commentLength
  let isUtf8 := flags.testBit 11
  let r ← liftM (withExtra ⟨rawName, textOf isUtf8 rawName, textOf isUtf8 comment,
    flags.testBit 0, false, method, checksum, size, fullSize, start⟩ extra)
  require (base + r.start < 18446744073709551616) .damaged
  return { r with start := base + r.start }

/-- The records read so far, in reverse, followed by further ones. -/
def readRecords (base : Nat) : (count : Nat) → List Record → Bytes →
    Except ArchiveError (List Record)
  | 0, acc, _ => .ok acc.reverse
  | count + 1, acc, data =>
    match readRecord base data with
    | .ok (r, rest) => readRecords base count (r :: acc) rest
    | .error e => .error e

end ClassAtlas.Zip
