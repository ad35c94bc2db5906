import Std.Data.HashSet
import ClassAtlas.Archive.Entry
import ClassAtlas.Bytes.Little
import ClassAtlas.Error
import ClassAtlas.Text.Utf8

/-!
A file form of archives: entries follow one another as they are, and behind them a directory says
where each of them is. It is the plainest of the forms that stand for the same entries. Other writers
pack the data, and a reader gives the same entries back either way.
-/

namespace ClassAtlas.Zip

/-- The first day that a record can hold. -/
def firstDay : Nat := 0x21

/-- What an entry and its directory record have in common: version, flags, method, time, checksum,
sizes and the length of the name. Entries are stored as they are. -/
def commonFields (e : ArchiveEntry) (name : Bytes) : Bytes :=
  Bytes.little 2 20 ++ Bytes.little 2 utf8Flag ++ Bytes.little 2 0 ++ Bytes.little 2 0 ++
    Bytes.little 2 firstDay ++ Bytes.little 4 (checksum e.data).toNat ++
    Bytes.little 4 e.data.length ++ Bytes.little 4 e.data.length ++ Bytes.little 2 name.length

def entryBytes (e : ArchiveEntry) : Bytes :=
  let name := Utf8.encode e.name
  entryMark ++ commonFields e name ++ Bytes.little 2 0 ++ name ++ e.data

/-- The extra field of an offset that is too long for a record. -/
def longOffset (offset : Nat) : Bytes :=
  if offset < tooLong then []
  else Bytes.little 2 1 ++ Bytes.little 2 8 ++ Bytes.little 8 offset

/-- The directory record of an entry that starts at an offset. -/
def recordBytes (e : ArchiveEntry) (offset : Nat) : Bytes :=
  let name := Utf8.encode e.name
  recordMark ++ Bytes.little 2 20 ++ commonFields e name ++
    Bytes.little 2 (longOffset offset).length ++ Bytes.little 2 0 ++ Bytes.little 2 0 ++
    Bytes.little 2 0 ++ Bytes.little 4 0 ++ Bytes.little 4 (min offset tooLong) ++ name ++
    longOffset offset

/-- The end of a directory with a number of records, of a size and at an offset. -/
def endBytes (count size offset : Nat) : Bytes :=
  endMark ++ Bytes.little 2 0 ++ Bytes.little 2 0 ++ Bytes.little 2 count ++
    Bytes.little 2 count ++ Bytes.little 4 size ++ Bytes.little 4 offset ++ Bytes.little 2 0

/-- The end of a directory with long numbers, at a position, and the pointer to it. -/
def longEndBytes (count size offset position : Nat) : Bytes :=
  longEndMark ++ Bytes.little 8 44 ++ Bytes.little 2 45 ++ Bytes.little 2 45 ++
    Bytes.little 4 0 ++ Bytes.little 4 0 ++ Bytes.little 8 count ++ Bytes.little 8 count ++
    Bytes.little 8 size ++ Bytes.little 8 offset ++
    pointerMark ++ Bytes.little 4 0 ++ Bytes.little 8 position ++ Bytes.little 4 1

/-- What follows a directory. Numbers that are too long for its end are said by one with long
numbers. -/
def closing (count size offset : Nat) : Bytes :=
  if count < 65536 ∧ size ≤ tooLong ∧ offset ≤ tooLong then endBytes count size offset
  else
    longEndBytes count size offset (offset + size) ++
      endBytes (min count 65535) (min size tooLong) (min offset tooLong)

/-- The directory records of entries that follow one another from an offset on. -/
def records (offset : Nat) : List (ArchiveEntry × Bytes) → List Bytes
  | [] => []
  | (e, bytes) :: rest => recordBytes e offset :: records (offset + bytes.length) rest

/-- Whether a name occurs twice. -/
def hasDuplicate (names : List String) : Bool :=
  (Std.HashSet.ofList names).size != names.length

/-- The file form of an archive whose entries are stored as they are. No two entries may have the
same name, and the name and the data of each of them have to fit its record. -/
def encode (entries : List ArchiveEntry) : Except Error Bytes :=
  if hasDuplicate (entries.map ArchiveEntry.name) then .error (.archive .duplicateName)
  else if entries.any fun e => e.name.utf8ByteSize ≥ 65536 then .error (.archive .longName)
  else if entries.any fun e => tooLong < e.data.length then .error (.file .largeEntry)
  else
    let parts := entries.map fun e => (e, entryBytes e)
    let content := (parts.map Prod.snd).flatten
    let directory := (records 0 parts).flatten
    .ok (content ++ directory ++ closing entries.length directory.length content.length)

end ClassAtlas.Zip
