import Std.Data.TreeMap
import ClassAtlas.Files.Access
import ClassAtlas.Files.Path

/-!
File trees held in memory. A tree maps the paths of files to their content and remembers its
directories; every operation on files has its meaning on such trees. A path is followed part by
part, and each part but the last has to lead to a directory.
-/

namespace ClassAtlas

/-- Files and directories by their full paths, in which slashes join the names; the root itself is
not listed. -/
structure FileTree where
  files : Std.TreeMap String Bytes
  directories : Std.TreeMap String Unit
  /-- The names that lead from the root to the directory where relative paths start. -/
  home : List String
  deriving Inhabited

/-- What is where names lead from the root. -/
inductive Place where
  | directory (names : List String)
  | file (names : List String) (content : Bytes)
  /-- Nothing, in a directory that is there. -/
  | vacant (names : List String)
  deriving DecidableEq, Repr

namespace FileTree

/-- The full path of the place that names lead to. -/
def key (names : List String) : String :=
  "/".intercalate names

/-- The tree with a directory more, in one that is there. -/
def insertDirectory (t : FileTree) (names : List String) : FileTree :=
  { t with directories := t.directories.insert (key names) () }

/-- The tree without files in which relative paths start in a directory below the root. -/
def startingIn (name : String) : FileTree :=
  insertDirectory ⟨∅, ∅, [name]⟩ [name]

def look (t : FileTree) (names : List String) : Place :=
  if names.isEmpty || t.directories.contains (key names) then .directory names
  else
    match t.files[key names]? with
    | some content => .file names content
    | none => .vacant names

/-- The length of the longest name, in UTF-8. -/
def longestName : Nat := 255

/-- The length of the longest path, in UTF-8. -/
def longestPath : Nat := 4095

/-- Where one part of a path leads in a directory. Two dots lead out of it; nothing lies above the
root. -/
def enter (t : FileTree) (names : List String) (part : String) : Except FileError Place :=
  if part == ".." then .ok (.directory names.dropLast)
  else if part.utf8ByteSize ≤ longestName then .ok (t.look (names ++ [part]))
  else .error .nameTooLong

/-- Where the parts of a path lead from a place. -/
def follow (t : FileTree) : Place → List String → Except FileError Place
  | place, [] => .ok place
  | .directory names, part :: rest =>
    match t.enter names part with
    | .ok place => t.follow place rest
    | .error e => .error e
  | .file .., _ :: _ => .error .notDirectory
  | .vacant _, _ :: _ => .error .notFound

/-- Why a text is no path at all, if it is none. -/
def refusal? (path : String) : Option FileError :=
  if path.isEmpty then some .notFound
  else if path.toList.contains '\x00' then some .invalidName
  else if path.utf8ByteSize ≤ longestPath then none
  else some .nameTooLong

/-- The names that lead to where a path starts. -/
def origin (t : FileTree) (path : String) : List String :=
  if Path.isAbsolute path then [] else t.home

/-- Where a path leads. One that can only be that of a directory does not lead to a file. -/
def resolve (t : FileTree) (path : String) : Except FileError Place :=
  match refusal? path with
  | some e => .error e
  | none =>
    match t.follow (.directory (t.origin path)) (Path.parts path) with
    | .ok (.file names content) =>
      if Path.saysDirectory path then .error .notDirectory else .ok (.file names content)
    | outcome => outcome

def isDirectory (t : FileTree) (path : String) : Bool :=
  match t.resolve path with
  | .ok (.directory _) => true
  | _ => false

def isFile (t : FileTree) (path : String) : Bool :=
  match t.resolve path with
  | .ok (.file ..) => true
  | _ => false

def read (t : FileTree) (path : String) : Except FileError Bytes :=
  match t.resolve path with
  | .ok (.file _ content) => .ok content
  | .ok (.directory _) => .error .isDirectory
  | .ok (.vacant _) => .error .notFound
  | .error e => .error e

/-- The names that lead from a directory to a file of the given full path below it. -/
def below? (directory : List String) (path : String) : Option (List String) :=
  let names := Name.segments path
  if directory.isPrefixOf names then some (names.drop directory.length) else none

/-- The files below a directory. -/
def list (t : FileTree) (path : String) : List (List String) :=
  match t.resolve path with
  | .ok (.directory names) => t.files.keys.filterMap (below? names)
  | _ => []

/-- Makes the directories that the parts of a path lead to from a directory, as far as they are
missing. Those that were made before a failure stay. -/
def makeFrom (t : FileTree) (names : List String) :
    List String → Except FileError Unit × FileTree
  | [] => (.ok (), t)
  | part :: rest =>
    match t.enter names part with
    | .ok (.directory names) => t.makeFrom names rest
    | .ok (.vacant names) => (t.insertDirectory names).makeFrom names rest
    | .ok (.file ..) => (.error (if rest.isEmpty then .exists else .notDirectory), t)
    | .error e => (.error e, t)

/-- Makes a directory at a path, and those that it lies in. -/
def makeDirectory (t : FileTree) (path : String) : Except FileError Unit × FileTree :=
  match refusal? path with
  | some e => (.error e, t)
  | none => t.makeFrom (t.origin path) (Path.parts path)

def insertFile (t : FileTree) (names : List String) (content : Bytes) : FileTree :=
  { t with files := t.files.insert (key names) content }

/-- Writes a file at a path, in a directory that is there. -/
def write (t : FileTree) (path : String) (content : Bytes) : Except FileError Unit × FileTree :=
  match t.resolve path with
  | .ok (.file names _) => (.ok (), t.insertFile names content)
  | .ok (.vacant names) =>
    if Path.saysDirectory path then (.error .isDirectory, t)
    else (.ok (), t.insertFile names content)
  | .ok (.directory _) => (.error .isDirectory, t)
  | .error e => (.error e, t)

def remove (t : FileTree) (path : String) : FileTree :=
  match t.resolve path with
  | .ok (.file names _) => { t with files := t.files.erase (key names) }
  | _ => t

instance : FileAccess (StateM FileTree) where
  isFile path := fun t => (t.isFile path, t)
  isDirectory path := fun t => (t.isDirectory path, t)
  read path := fun t => (t.read path, t)
  list path := fun t => (t.list path, t)
  makeDirectory path := fun t => t.makeDirectory path
  write path content := fun t => t.write path content
  replace path content := fun t => t.write path content

end FileTree

end ClassAtlas
