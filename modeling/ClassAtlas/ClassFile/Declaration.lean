import ClassAtlas.Bytes.Basic
import ClassAtlas.Pool.Basic

/-!
The declaration model: what a class file says, with names in place of pool indices. Code and raw
attributes still hold indices, so the pool travels with the declaration.
-/

namespace ClassAtlas

/-- Access flags of classes, fields and methods. -/
structure Access where
  bits : UInt16
  deriving DecidableEq, Repr, Inhabited

namespace Access

def has (a : Access) (mask : UInt16) : Bool := a.bits &&& mask != 0

/-- Visible only inside its class. -/
def isPrivate (a : Access) : Bool := a.has 0x0002

/-- Belongs to the class and not to its instances. -/
def isStatic (a : Access) : Bool := a.has 0x0008

def isInterface (a : Access) : Bool := a.has 0x0200

/-- Has no body of its own. -/
def isAbstract (a : Access) : Bool := a.has 0x0400

end Access

/-- An attribute kept as raw bytes. -/
structure Attribute where
  name : String
  data : Bytes
  deriving DecidableEq, Repr, Inhabited

structure FieldDecl where
  access : Access
  name : String
  descriptor : String
  attributes : List Attribute
  deriving DecidableEq, Repr, Inhabited

/-- An entry of an exception table. The range excludes its end, and no type catches everything. -/
structure Handler where
  start : Nat
  stop : Nat
  handler : Nat
  catchType : Option String
  deriving DecidableEq, Repr, Inhabited

/-- Whether the instruction at an offset is protected by the handler. -/
def Handler.covers (h : Handler) (offset : Nat) : Bool :=
  h.start ≤ offset && offset < h.stop

/-- The code of a method with its limits, handlers and attributes. -/
structure MethodBody where
  maxStack : UInt16
  maxLocals : UInt16
  code : Bytes
  handlers : List Handler
  attributes : List Attribute
  deriving DecidableEq, Repr, Inhabited

/-- A method of a class; abstract and native methods have no body. -/
structure MethodDecl where
  access : Access
  name : String
  descriptor : String
  body : Option MethodBody
  attributes : List Attribute
  deriving DecidableEq, Repr, Inhabited

structure ClassDecl where
  minor : UInt16
  major : UInt16
  access : Access
  name : String
  superName : Option String
  interfaces : List String
  fields : List FieldDecl
  methods : List MethodDecl
  attributes : List Attribute
  pool : Pool
  deriving Inhabited

namespace ClassDecl

def isInterface (d : ClassDecl) : Bool := d.access.isInterface

/-- The direct supertypes: the superclass first, then the interfaces. -/
def parents (d : ClassDecl) : List String := d.superName.toList ++ d.interfaces

/-- The first method of a name and descriptor. -/
def method? (d : ClassDecl) (name descriptor : String) : Option MethodDecl :=
  d.methods.find? fun m => m.name == name && m.descriptor == descriptor

/-- The first field of a name. -/
def field? (d : ClassDecl) (name : String) : Option FieldDecl :=
  d.fields.find? fun f => f.name == name

end ClassDecl

end ClassAtlas
