import ClassAtlas.ClassFile.Declaration
import ClassAtlas.Pool.Codec

/-!
Reading class files. Failures are reported under the label of the whole, with the part that failed
in front of the reason.
-/

namespace ClassAtlas.ClassFile

/-- The first four bytes of every class file. -/
def magic : UInt32 := 0xCAFEBABE

/-- The attribute that holds the body of a method. -/
def codeName : String := "Code"

/-- Reads the magic number and the version. -/
def readHeader : Reader (UInt16 × UInt16) := do
  let word ← Reader.u32
  if word = magic then
    let minor ← Reader.u16
    let major ← Reader.u16
    return (minor, major)
  else Reader.fail (.badMagic word)

def readText (pool : Pool) : Reader String := do
  Reader.lift (pool.utf8At (← Reader.u16))

/-- Reads the index of a class and finds its name. -/
def readClass (pool : Pool) : Reader String := do
  Reader.lift (pool.className (← Reader.u16))

/-- Reads the index of a class, or zero for none. -/
def readOptionalClass (pool : Pool) : Reader (Option String) := do
  Reader.lift (pool.optionalClassName (← Reader.u16))

/-- Reads a count and as many items. -/
@[inline] def readList {α : Type} (item : Reader α) : Reader (List α) := do
  let count ← Reader.u16
  Reader.many count.toNat item

def readAttribute (pool : Pool) : Reader Attribute := do
  let name ← readText pool
  let length ← Reader.u32
  let data ← Reader.take length.toNat
  return ⟨name, data⟩

def readAttributes (pool : Pool) : Reader (List Attribute) :=
  readList (readAttribute pool)

/-- Reads one exception table entry, whose range must lie in code of the given length. -/
def readHandler (pool : Pool) (codeLength : Nat) : Reader Handler := do
  let start ← Reader.u16
  let stop ← Reader.u16
  let handler ← Reader.u16
  let catchType ← readOptionalClass pool
  if start ≥ stop || stop.toNat > codeLength || handler.toNat ≥ codeLength then
    Reader.fail .handlerRange
  else return ⟨start.toNat, stop.toNat, handler.toNat, catchType⟩

/-- Reads the content of a code attribute. -/
def readBody (pool : Pool) : Reader MethodBody := do
  let maxStack ← Reader.u16
  let maxLocals ← Reader.u16
  let length ← Reader.u32
  let code ← Reader.take length.toNat
  let handlers ← readList (readHandler pool length.toNat)
  let attributes ← readAttributes pool
  return ⟨maxStack, maxLocals, code, handlers, attributes⟩

/-- The body in the first code attribute of a list, and the other attributes. -/
def splitBody (pool : Pool) (label : String) :
    List Attribute → Except DecodeError (Option MethodBody × List Attribute)
  | attributes =>
    match attributes.span (fun a => a.name != codeName) with
    | (before, a :: after) =>
      match (readBody pool).run label a.data with
      | .ok body => .ok (some body, before ++ after)
      | .error e => .error e
    | (before, []) => .ok (none, before)

def readField (pool : Pool) : Reader FieldDecl := do
  let access ← Reader.u16
  let name ← readText pool
  let descriptor ← readText pool
  let attributes ← readAttributes pool
  return ⟨⟨access⟩, name, descriptor, attributes⟩

def readMethod (pool : Pool) : Reader MethodDecl := do
  let access ← Reader.u16
  let name ← readText pool
  let descriptor ← readText pool
  let attributes ← readAttributes pool
  let (body, rest) ← Reader.lift (splitBody pool (name ++ descriptor) attributes)
  return ⟨⟨access⟩, name, descriptor, body, rest⟩

def readMembers (minor major : UInt16) (pool : Pool) : Reader ClassDecl := do
  let access ← Reader.u16
  let name ← readClass pool
  let superName ← readOptionalClass pool
  let interfaces ← readList (readClass pool)
  let fields ← readList (readField pool)
  let methods ← readList (readMethod pool)
  let attributes ← readAttributes pool
  return ⟨minor, major, ⟨access⟩, name, superName, interfaces, fields, methods, attributes, pool⟩

def readFile : Reader ClassDecl := do
  let (minor, major) ← readHeader
  let pool ← Pool.read
  let decl ← readMembers minor major pool
  let left ← Reader.remaining
  if left = 0 then return decl else Reader.fail (.trailing left)

/-- The declaration in a class file. Every failure names the label. -/
def parse (label : String) (bytes : Bytes) : Except DecodeError ClassDecl :=
  match readFile.run label bytes with
  | .ok decl => .ok decl
  | .error e => .error (e.relabel label)

/-- The name under which a class file is read whose class is not known yet. -/
def unnamed : String := "<class file>"

/-- The class that a class file declares. Nothing after its name is looked at. -/
def peekName (bytes : Bytes) : Except DecodeError String :=
  Reader.run (do
    let _ ← readHeader
    let pool ← Pool.read
    let _ ← Reader.u16
    readClass pool) unnamed bytes

end ClassAtlas.ClassFile
