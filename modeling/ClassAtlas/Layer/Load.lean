import ClassAtlas.Archive.Reader
import ClassAtlas.ClassFile.Reader
import ClassAtlas.Files.Access
import ClassAtlas.Files.Path
import ClassAtlas.Layer.Basic

/-!
Layers from files: from archives, from directories and from single class files.
-/

namespace ClassAtlas.Layer

/-- The bytes in front of an archive that holds a module of the host. -/
def moduleMagic : Bytes := [0x4A, 0x4D, 0x01, 0x00]

/-- Where an archive of a module keeps its units. -/
def moduleClasses : String := "classes/"

/-- Where archives keep units for particular versions of the host. -/
def versionedEntries : String := "META-INF/versions/"

/-- The rest of a text that begins with the given one. -/
def dropStart? (s start : String) : Option String :=
  if start.toList.isPrefixOf s.toList then some (String.ofList (s.toList.drop start.length))
  else none

/-- The unit that an entry of an archive holds, if it holds one that is not for a particular version
of the host. -/
def entryUnit? (isModule : Bool) (entry : String) : Option String :=
  ((if isModule then dropStart? entry moduleClasses else some entry).filter
    fun name => (dropStart? name versionedEntries).isNone).bind Name.ofEntry?

/-- The layer with the content of an archive entry: a unit, or a resource under the full name. -/
def addEntry (isModule : Bool) (l : Layer) (e : ArchiveEntry) : Layer :=
  if Zip.namesDirectory e.name then l
  else
    match entryUnit? isModule e.name with
    | some name => l.insertUnit ⟨name, e.data⟩
    | none => l.insertResource e.name e.data

def ofEntries (name : String) (kind : LayerKind) (isModule : Bool)
    (entries : List ArchiveEntry) : Layer :=
  entries.foldl (addEntry isModule) (empty name kind)

/-- The archive in a file, and whether it is that of a module. -/
def archivePart (bytes : Bytes) : Bytes × Bool :=
  if moduleMagic.isPrefixOf bytes then (bytes.drop moduleMagic.length, true) else (bytes, false)

def ofArchive (name : String) (kind : LayerKind) (bytes : Bytes) : Except Error Layer :=
  let (payload, isModule) := archivePart bytes
  match Zip.decode payload with
  | .ok entries => .ok (ofEntries name kind isModule entries)
  | .error e => .error e

/-- The layer with the content of a file of a directory: a unit, or a resource under its path. -/
def addFile (l : Layer) (path : String) (bytes : Bytes) : Layer :=
  match Name.ofEntry? path with
  | some name => l.insertUnit ⟨name, bytes⟩
  | none => l.insertResource path bytes

/-- The layer of the files of a directory, by their paths in it. -/
def ofFiles (name : String) (kind : LayerKind) (files : List (String × Bytes)) : Layer :=
  files.foldl (fun l (path, bytes) => l.addFile path bytes) (empty name kind)

/-- The layer of a single class file, whose unit is named by the class. -/
def ofClassFile (path name : String) (kind : LayerKind) (bytes : Bytes) : Except Error Layer :=
  match ClassFile.peekName bytes with
  | .ok unit => .ok ((empty name kind).insertUnit ⟨unit, bytes⟩)
  | .error e => .error (.decode ⟨path, .failed e.subject e.reason⟩)

variable {m : Type → Type} [Monad m] [FileAccess m]

/-- Reads files of a directory, given by the names that lead to them. -/
def readFiles (root : String) : List (List String) → m (Except Error (List (String × Bytes)))
  | [] => return .ok []
  | names :: rest => do
    let path := "/".intercalate names
    match ← FileAccess.read (Path.join root path) with
    | .error e => return .error (.file e)
    | .ok bytes =>
      match ← readFiles root rest with
      | .error e => return .error e
      | .ok files => return .ok ((path, bytes) :: files)

/-- Loads a layer from a directory, a class file or an archive. -/
def load (path : String) (kind : LayerKind) : m (Except Error Layer) := do
  let name := Path.displayName path
  if ← FileAccess.isDirectory path then
    match ← readFiles path (← FileAccess.list path) with
    | .ok files => return .ok (ofFiles name kind files)
    | .error e => return .error e
  else
    match ← FileAccess.read path with
    | .error e => return .error (.file e)
    | .ok bytes =>
      if Path.extension? path == some "class" then return ofClassFile path name kind bytes
      else return ofArchive name kind bytes

end ClassAtlas.Layer
