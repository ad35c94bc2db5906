import ClassAtlas.ClassFile.Reader
import ClassAtlas.Code.StackDepth

/-!
Writing class files. Names are looked up in a growing copy of the declaration's own pool, so entries
that are already there keep their slots and indices inside code stay valid.
-/

namespace ClassAtlas.ClassFile

/-- A step that yields a value and may append entries to the pool, or fails. -/
abbrev Emitter := StateT Pool (Except Error)

namespace Emitter

def fail {α : Type} (e : EncodeError) : Emitter α := fun _ => .error (.encode e)

/-- The index of a text, as bytes. -/
def text (s : String) : Emitter Bytes := fun p =>
  let (i, p) := p.utf8 s
  .ok (Bytes.ofUInt16 i, p)

/-- The index of a class, as bytes. -/
def className (name : String) : Emitter Bytes := fun p =>
  let (i, p) := p.classEntry name
  .ok (Bytes.ofUInt16 i, p)

/-- The index of a class, or zero for none, as bytes. -/
def optionalClass : Option String → Emitter Bytes
  | some name => className name
  | none => pure (Bytes.ofUInt16 0)

/-- A number of things, which must fit 16 bits. -/
def count (n : Nat) (things : String) : Emitter Bytes :=
  if n < 65536 then pure (Bytes.ofUInt16 n.toUInt16) else fail (.tooMany things n)

/-- The bytes of all items, one after the other. -/
@[specialize] def all {α : Type} (item : α → Emitter Bytes) (items : List α) : Emitter Bytes := do
  return (← items.mapM item).flatten

/-- A count and the bytes of all items. -/
@[inline] def list {α : Type} (things : String) (item : α → Emitter Bytes) (items : List α) :
    Emitter Bytes := do
  let n ← count items.length things
  return n ++ (← all item items)

end Emitter

def emitAttribute (a : Attribute) : Emitter Bytes := do
  let name ← Emitter.text a.name
  if a.data.length < 4294967296 then
    return name ++ Bytes.ofUInt32 a.data.length.toUInt32 ++ a.data
  else Emitter.fail (.longAttribute a.name)

def emitAttributes (attributes : List Attribute) : Emitter Bytes :=
  Emitter.list "attributes" emitAttribute attributes

/-- An offset of an exception table, which must fit 16 bits. -/
def emitOffset (offset : Nat) : Emitter Bytes :=
  if offset < 65536 then pure (Bytes.ofUInt16 offset.toUInt16)
  else Emitter.fail (.handlerOffset offset)

/-- The file form of an exception table entry. -/
def emitHandler (h : Handler) : Emitter Bytes := do
  let start ← emitOffset h.start
  let stop ← emitOffset h.stop
  let handler ← emitOffset h.handler
  return start ++ stop ++ handler ++ (← Emitter.optionalClass h.catchType)

/-- The content of a code attribute with the given limits. -/
def emitBody (body : MethodBody) (maxStack maxLocals : UInt16) : Emitter Bytes := do
  if body.code.length < 4294967296 then
    let handlers ← Emitter.list "exception handlers" emitHandler body.handlers
    let attributes ← emitAttributes body.attributes
    return Bytes.ofUInt16 maxStack ++ Bytes.ofUInt16 maxLocals ++
      Bytes.ofUInt32 body.code.length.toUInt32 ++ body.code ++ handlers ++ attributes
  else Emitter.fail .longCode

def emitField (f : FieldDecl) : Emitter Bytes := do
  let name ← Emitter.text f.name
  let descriptor ← Emitter.text f.descriptor
  return Bytes.ofUInt16 f.access.bits ++ name ++ descriptor ++ (← emitAttributes f.attributes)

/-- The limits that are written for a body: those that its code needs, or the stored ones. -/
def limitsOf (d : ClassDecl) (m : MethodDecl) (body : MethodBody) (recompute : Bool) :
    Emitter (UInt16 × UInt16) :=
  if recompute then fun p =>
    match d.limits m body with
    | .ok limits => .ok (limits, p)
    | .error e => .error e
  else pure (body.maxStack, body.maxLocals)

/-- The body of a method, if it has one, with the limits that are written for it. -/
def limitedBody (d : ClassDecl) (recompute : Bool) (m : MethodDecl) :
    Emitter (Option (MethodBody × UInt16 × UInt16)) :=
  match m.body with
  | none => pure none
  | some body => do
    let limits ← limitsOf d m body recompute
    return some (body, limits)

/-- The file form of the code attribute of a method, if it has a body. -/
def emitCode (body : Option (MethodBody × UInt16 × UInt16)) : Emitter Bytes :=
  match body with
  | none => pure []
  | some (body, maxStack, maxLocals) => do
    let data ← emitBody body maxStack maxLocals
    emitAttribute ⟨codeName, data⟩

def emitMethod (d : ClassDecl) (recompute : Bool) (m : MethodDecl) : Emitter Bytes := do
  let body ← limitedBody d recompute m
  let name ← Emitter.text m.name
  let descriptor ← Emitter.text m.descriptor
  let count ← Emitter.count (m.attributes.length + if m.body.isSome then 1 else 0)
    "method attributes"
  let code ← emitCode body
  let attributes ← Emitter.all emitAttribute m.attributes
  return Bytes.ofUInt16 m.access.bits ++ name ++ descriptor ++ count ++ code ++ attributes

/-- All that follows the pool in the file form of a class. -/
def emitMembers (d : ClassDecl) (recompute : Bool) : Emitter Bytes := do
  let name ← Emitter.className d.name
  let superName ← Emitter.optionalClass d.superName
  let interfaces ← Emitter.list "interfaces" Emitter.className d.interfaces
  let fields ← Emitter.list "fields" emitField d.fields
  let methods ← Emitter.list "methods" (emitMethod d recompute) d.methods
  let attributes ← emitAttributes d.attributes
  return Bytes.ofUInt16 d.access.bits ++ name ++ superName ++ interfaces ++ fields ++ methods ++
    attributes

/-- The file form of a class, with limits recomputed or taken as they are stored. -/
def write (d : ClassDecl) (recompute : Bool) : Except Error Bytes :=
  match emitMembers d recompute d.pool with
  | .error e => .error e
  | .ok (members, pool) =>
    match pool.encode with
    | .error e => .error (.encode e)
    | .ok pool =>
      .ok (Bytes.ofUInt32 magic ++ Bytes.ofUInt16 d.minor ++ Bytes.ofUInt16 d.major ++ pool ++
        members)

end ClassAtlas.ClassFile
