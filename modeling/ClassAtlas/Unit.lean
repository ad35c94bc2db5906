import ClassAtlas.Digest.Blake3
import ClassAtlas.Name

/-!
Units: compiled classes under their internal names.
-/

namespace ClassAtlas

/-- A compiled class with its internal name. -/
structure ClassUnit where
  name : String
  bytes : Bytes
  deriving DecidableEq, Repr, Inhabited

namespace ClassUnit

/-- The hash of the content. -/
def fingerprint (u : ClassUnit) : Bytes :=
  Blake3.hash u.bytes

def entryName (u : ClassUnit) : String :=
  Name.toEntry u.name

end ClassUnit

end ClassAtlas
