import ClassAtlas.ClassFile.Declaration
import ClassAtlas.Digest.Fnv
import ClassAtlas.Json.Value
import ClassAtlas.Text.Hex

/-!
The JSON forms of declarations. Long byte strings and large pools are abridged.
-/

namespace ClassAtlas

/-- The most bytes that are written in full. -/
def JsonValue.shownBytes : Nat := 8192

/-- Bytes as digits; more than are shown are given by their number, a checksum and the first few. -/
def JsonValue.ofBytes (bytes : Bytes) : JsonValue :=
  let length := bytes.length
  if length ≤ shownBytes then .string (Hex.encode bytes)
  else .object [("len", .number length),
    ("fnv1a64", .string (Text.hexPadded 16 (Fnv.hash bytes).toNat)),
    ("head", .string (Hex.encode (bytes.take 32)))]

def JsonValue.tagged (word : String) (numbers : List Nat) : JsonValue :=
  .array (.string word :: numbers.map fun (n : Nat) => .number n)

/-- An entry of a pool. Numbers of more than 32 bits and bit patterns are texts. -/
def Constant.toJson : Constant → JsonValue
  | utf8 s => .strings ["utf8", s]
  | integer v => .array [.string "int", .number v.toInt]
  | float bits => .strings ["float", Text.hexPadded 8 bits.toNat]
  | long v => .strings ["long", toString v.toInt]
  | double bits => .strings ["double", Text.hexPadded 16 bits.toNat]
  | classRef i => .tagged "class" [i.toNat]
  | string i => .tagged "string" [i.toNat]
  | fieldRef a b => .tagged "field" [a.toNat, b.toNat]
  | methodRef a b => .tagged "method" [a.toNat, b.toNat]
  | interfaceMethodRef a b => .tagged "imethod" [a.toNat, b.toNat]
  | nameAndType a b => .tagged "nat" [a.toNat, b.toNat]
  | methodHandle kind i => .tagged "handle" [kind.toNat, i.toNat]
  | methodType i => .tagged "mtype" [i.toNat]
  | dynamic a b => .tagged "dynamic" [a.toNat, b.toNat]
  | invokeDynamic a b => .tagged "indy" [a.toNat, b.toNat]
  | module i => .tagged "module" [i.toNat]
  | package i => .tagged "package" [i.toNat]
  | unusable => .null

/-- Access flags as their bits. -/
def Access.toJson (a : Access) : JsonValue :=
  .number a.bits.toNat

/-- Attributes with their data. -/
def Attribute.listToJson (attributes : List Attribute) : JsonValue :=
  .array (attributes.map fun a => .array [.string a.name, .ofBytes a.data])

def FieldDecl.toJson (f : FieldDecl) : JsonValue :=
  .array [f.access.toJson, .string f.name, .string f.descriptor, .boolean f.access.isStatic,
    Attribute.listToJson f.attributes]

/-- An entry of an exception table. -/
def Handler.toJson (h : Handler) : JsonValue :=
  .array [.number h.start, .number h.stop, .number h.handler, .ofOption h.catchType]

def MethodBody.toJson (b : MethodBody) : JsonValue :=
  .object [("max_stack", .number b.maxStack.toNat), ("max_locals", .number b.maxLocals.toNat),
    ("code", .ofBytes b.code), ("handlers", .array (b.handlers.map Handler.toJson)),
    ("attributes", Attribute.listToJson b.attributes)]

def MethodDecl.toJson (m : MethodDecl) : JsonValue :=
  .object [("access", m.access.toJson), ("name", .string m.name),
    ("descriptor", .string m.descriptor), ("static", .boolean m.access.isStatic),
    ("body", (m.body.map MethodBody.toJson).getD .null),
    ("attributes", Attribute.listToJson m.attributes)]

/-- The most slots of a pool that are written. -/
def JsonValue.shownSlots : Nat := 300

/-- A pool from its first slot on, unless it has more slots than are shown. -/
def Pool.toJson (p : Pool) : JsonValue :=
  if p.slotCount ≤ JsonValue.shownSlots then
    .array ((p.entries.toList.drop 1).map Constant.toJson)
  else .null

def ClassDecl.toJson (d : ClassDecl) : JsonValue :=
  .object [("minor", .number d.minor.toNat), ("major", .number d.major.toNat),
    ("access", d.access.toJson), ("name", .string d.name), ("super", .ofOption d.superName),
    ("interfaces", .strings d.interfaces), ("is_interface", .boolean d.isInterface),
    ("parents", .strings d.parents), ("fields", .array (d.fields.map FieldDecl.toJson)),
    ("methods", .array (d.methods.map MethodDecl.toJson)),
    ("attributes", Attribute.listToJson d.attributes), ("pool_slots", .number d.pool.slotCount),
    ("pool", d.pool.toJson)]

end ClassAtlas
