import ClassAtlas.Archive.Directory
import ClassAtlas.Archive.Inflate

/-!
Reading archives: the directory says which entries there are, and each of them is unpacked and its
checksum compared.
-/

namespace ClassAtlas.Zip

/-- Reads the head of an entry: how far its data lies behind it. -/
def readHead : PartReader Nat := do
  let mark ← bytes 4
  require (mark == entryMark) .damaged
  let _ ← bytes 22
  let nameLength ← number 2
  let extraLength ← number 2
  return nameLength + extraLength

/-- The length of the head of an entry. -/
def headLength : Nat := 30

/-- Where the stored form of an entry starts. An entry must begin as its kind does, and be neither
encrypted nor packed in an unknown way. -/
def Record.dataStart (a : Array UInt8) (r : Record) : Except ArchiveError Nat :=
  if r.encrypted || r.sealed then .error .unsupported
  else if r.method ≠ 0 ∧ r.method ≠ 8 then .error .unsupported
  else
    match readAt? a r.start headLength readHead with
    | some gap => .ok (r.start + headLength + gap)
    | none => .error .damaged

/-- The data of an entry whose stored form is given. -/
def Record.unpack (r : Record) (stored : Bytes) : Except FileError Bytes :=
  match if r.method = 0 then some stored else Inflate.decode? stored with
  | some data =>
    if (Zip.checksum data).toNat = r.checksum then .ok data else .error .badChecksum
  | none => .error .corruptStream

/-- The entry that a record describes. One for a directory has no data. -/
def Record.entry (a : Array UInt8) (r : Record) : Except Error ArchiveEntry :=
  match r.dataStart a with
  | .error e => .error (.archive e)
  | .ok start =>
    if namesDirectory r.name then .ok ⟨r.name, []⟩
    else
      match r.unpack (Bytes.window a start r.size) with
      | .ok data => .ok ⟨r.name, data⟩
      | .error e => .error (.file e)

def entries (a : Array UInt8) : List Record → Except Error (List ArchiveEntry)
  | [] => .ok []
  | r :: rest =>
    match r.entry a with
    | .ok e => (entries a rest).map (e :: ·)
    | .error e => .error e

/-- The entries of an archive file, in the order of its directory. -/
def decode (bytes : Bytes) : Except Error (List ArchiveEntry) :=
  let a := bytes.toArray
  match directory a with
  | .error e => .error (.archive e)
  | .ok records => entries a records

end ClassAtlas.Zip
