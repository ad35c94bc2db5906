import ClassAtlas.Bytes.Basic
import ClassAtlas.Error

/-!
Access to files, as far as the library needs it. Programs are written against this interface, so
that they can run on the files of a computer and on a tree held in memory.
-/

namespace ClassAtlas

/-- What can be done with files, by their paths. -/
class FileAccess (m : Type → Type) where
  isFile : String → m Bool
  isDirectory : String → m Bool
  read : String → m (Except FileError Bytes)
  /-- The files below a directory, as lists of names that lead to them. -/
  list : String → m (List (List String))
  /-- Makes a directory and those that it lies in, as far as they are missing. -/
  makeDirectory : String → m (Except FileError Unit)
  write : String → Bytes → m (Except FileError Unit)
  /-- Puts a complete file in the place of another in one step. -/
  replace : String → Bytes → m (Except FileError Unit)

namespace FileAccess

variable {m : Type → Type} [Monad m] [FileAccess m]

/-- Whether there is something at a path. -/
def present (path : String) : m Bool := do
  if ← isFile path then return true else isDirectory path

end FileAccess

end ClassAtlas
