import ClassAtlas.ClassFile.Writer

/-!
Codecs turn units into declarations and back. The class-file codec reads and writes class files; a
workspace may use any other that keeps the same interface.
-/

namespace ClassAtlas

/-- What a codec does about derived data of methods when it writes. -/
inductive WriterFlags where
  /-- Recompute stack map frames, and limits with them. -/
  | computeFrames
  /-- Recompute limits. -/
  | computeMaxs
  /-- Write stored values. -/
  | none
  deriving DecidableEq, Repr, Inhabited

namespace WriterFlags

def name : WriterFlags → String
  | computeFrames => "compute-frames"
  | computeMaxs => "compute-maxs"
  | none => "none"

def ofName? : String → Option WriterFlags
  | "compute-frames" => some computeFrames
  | "compute-maxs" => some computeMaxs
  | "none" => some none
  | _ => Option.none

/-- The flags where nothing else is asked for. -/
def standard : WriterFlags := computeMaxs

end WriterFlags

/-- What a writer of stack map frames may ask about types. -/
structure TypeOracle where
  /-- The nearest common superclass of two classes, if both are known. -/
  commonSuperclass : String → String → Option String
  isInterface : String → Bool

/-- The oracle that knows nothing: the root is common to all, and nothing is an interface. -/
def TypeOracle.flat : TypeOracle where
  commonSuperclass _ _ := some Name.object
  isInterface _ := false

/-- Reads units and writes declarations. -/
structure Codec where
  decode : (name : String) → Bytes → Except Error ClassDecl
  encode : ClassDecl → WriterFlags → TypeOracle → Except Error Bytes

namespace ClassFile

/-- The declaration of a unit, which must be of the class that the unit is named for. -/
def decode (name : String) (bytes : Bytes) : Except DecodeError ClassDecl :=
  match parse name bytes with
  | .error e => .error e
  | .ok d => if d.name = name then .ok d else .error ⟨name, .declares d.name⟩

/-- The file form of a declaration. Stack map frames are not supported. -/
def encode (d : ClassDecl) (flags : WriterFlags) : Except Error Bytes :=
  match flags with
  | .computeFrames =>
    .error (.unsupported "stack map frame computation requires an external codec")
  | .computeMaxs => write d true
  | .none => write d false

/-- The codec of class files. -/
def codec : Codec where
  decode name bytes :=
    match decode name bytes with
    | .ok d => .ok d
    | .error e => .error (.decode e)
  encode d flags _ := encode d flags

end ClassFile

end ClassAtlas
