import ClassAtlas.Name

/-!
Paths as texts: what they are made of, and how they are put together.
-/

namespace ClassAtlas.Path

/-- The parts of a path between slashes that lead somewhere: empty parts and single dots do not. -/
def parts (path : String) : List String :=
  (Name.segments path).filter fun part => !part.isEmpty && part != "."

/-- Whether a path leads from the root. -/
def isAbsolute (path : String) : Bool :=
  path.startsWith "/"

/-- Whether a path names the directory where it starts. -/
def startsHere (path : String) : Bool :=
  path == "." || path.startsWith "./"

/-- Whether two paths are written alike, up to empty parts and single dots behind the start. Where
they lead does not matter. -/
def same (a b : String) : Bool :=
  isAbsolute a == isAbsolute b && startsHere a == startsHere b && parts a == parts b

/-- Whether a path can only be that of a directory, by the way it ends. -/
def saysDirectory (path : String) : Bool :=
  match (Name.segments path).getLast? with
  | some "" => true
  | some "." => true
  | some ".." => true
  | _ => false

/-- The last part of a path, unless it leads upwards. -/
def fileName? (path : String) : Option String :=
  (parts path).getLast?.filter (· != "..")

/-- The name under which a path is shown: its last part, or all of it. -/
def displayName (path : String) : String :=
  (fileName? path).getD path

/-- What follows the last dot of the last part, if something stands before that dot. -/
def extension? (path : String) : Option String :=
  (fileName? path).bind fun name =>
    match name.toList.reverse.span (· != '.') with
    | (behind, _ :: before) =>
      if before.isEmpty then none else some (String.ofList behind.reverse)
    | _ => none

/-- The path of the directory that holds what a path leads to; empty for a single part. -/
def parent (path : String) : String :=
  let dirs := (parts path).dropLast
  let path' := "/".intercalate dirs
  if isAbsolute path then "/" ++ path'
  else if startsHere path && !(parts path).isEmpty then "/".intercalate ("." :: dirs)
  else path'

/-- The path of something inside a directory. -/
def join (directory name : String) : String :=
  if directory.isEmpty || directory.endsWith "/" then directory ++ name
  else directory ++ "/" ++ name

end ClassAtlas.Path
