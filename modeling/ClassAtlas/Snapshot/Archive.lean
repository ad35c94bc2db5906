import ClassAtlas.Archive.Writer
import ClassAtlas.Layer.Load

/-!
Snapshots: archives of units, written in one step and read back as layers, and the fingerprint that
tells the content of two snapshots apart.
-/

namespace ClassAtlas.Snapshot

/-- Units ordered by name; those of one name keep their order. -/
def sorted (units : List ClassUnit) : List ClassUnit :=
  units.mergeSort fun a b => decide (a.name ≤ b.name)

theorem sorted_perm (units : List ClassUnit) : (sorted units).Perm units :=
  units.mergeSort_perm _

/-- The entries of an archive of units, ordered by name, and of resources behind them. -/
def entries (units : List ClassUnit) (resources : List ArchiveEntry) : List ArchiveEntry :=
  (sorted units).map (fun u => ⟨u.entryName, u.bytes⟩) ++ resources

/-- The file form of an archive of units and resources. -/
def archive (units : List ClassUnit) (resources : List ArchiveEntry) :
    Except Error Bytes :=
  Zip.encode (entries units resources)

/-- What a unit adds to the fingerprint of a collection: its name, a zero byte and its own
fingerprint. -/
def unitRecord (u : ClassUnit) : Bytes :=
  Utf8.encode u.name ++ 0 :: u.fingerprint

/-- The bytes whose hash is the fingerprint of a collection of units. -/
def fingerprintInput (units : List ClassUnit) : Bytes :=
  (sorted units).flatMap unitRecord

def fingerprint (units : List ClassUnit) : Bytes :=
  Blake3.hash (fingerprintInput units)

/-- The directory that holds a file. -/
def directoryOf (path : String) : String :=
  let parent := Path.parent path
  if parent.isEmpty then "." else parent

variable {m : Type → Type} [Monad m] [FileAccess m]

/-- Writes an archive of units, in a directory that is made if it is missing. -/
def write (path : String) (units : List ClassUnit) : m (Except Error Unit) := do
  match ← FileAccess.makeDirectory (directoryOf path) with
  | .error e => return .error (.file e)
  | .ok _ =>
    match archive units [] with
    | .error e => return .error e
    | .ok bytes =>
      match ← FileAccess.replace path bytes with
      | .error e => return .error (.file e)
      | .ok _ => return .ok ()

/-- Reads a snapshot back. -/
def read (path : String) : m (Except Error Layer) :=
  Layer.load path .primary

end ClassAtlas.Snapshot
