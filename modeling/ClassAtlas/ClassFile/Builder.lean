import ClassAtlas.ClassFile.Writer
import ClassAtlas.Code.Assembler

/-!
Building classes from a list of things to declare.
-/

namespace ClassAtlas

/-- Something that a class under construction declares. -/
inductive ClassItem where
  | access (bits : UInt16)
  | superclass (name : String)
  /-- Declares no superclass, as the root of the hierarchy does. -/
  | noSuperclass
  | interface (name : String)
  | field (access : UInt16) (name descriptor : String)
  /-- A public abstract method. -/
  | abstractMethod (name descriptor : String)
  | method (access : UInt16) (name descriptor : String) (code : List Statement)
  deriving Repr

namespace ClassDecl

/-- A public class that extends the root and declares nothing. -/
def blank (name : String) : ClassDecl where
  minor := 0
  major := 52
  access := ⟨0x0021⟩
  name := name
  superName := some Name.object
  interfaces := []
  fields := []
  methods := []
  attributes := []
  pool := Pool.empty

def blankInterface (name : String) : ClassDecl :=
  { blank name with access := ⟨0x0601⟩ }

def declare (d : ClassDecl) : ClassItem → Except EncodeError ClassDecl
  | .access bits => .ok { d with access := ⟨bits⟩ }
  | .superclass name => .ok { d with superName := some name }
  | .noSuperclass => .ok { d with superName := none }
  | .interface name => .ok { d with interfaces := d.interfaces ++ [name] }
  | .field access name descriptor =>
    .ok { d with fields := d.fields ++ [⟨⟨access⟩, name, descriptor, []⟩] }
  | .abstractMethod name descriptor =>
    .ok { d with methods := d.methods ++ [⟨⟨0x0401⟩, name, descriptor, none, []⟩] }
  | .method access name descriptor code =>
    match Assembler.assemble d.pool code with
    | .error e => .error e
    | .ok (body, pool) =>
      .ok { d with methods := d.methods ++ [⟨⟨access⟩, name, descriptor, some body, []⟩], pool }

/-- Declares things one after the other. -/
def declareAll (d : ClassDecl) (items : List ClassItem) : Except EncodeError ClassDecl :=
  items.foldlM declare d

end ClassDecl

structure ClassRecipe where
  name : String
  interface : Bool
  items : List ClassItem
  deriving Repr

namespace ClassRecipe

/-- The declaration; the limits of its methods are still at zero. -/
def build (r : ClassRecipe) : Except EncodeError ClassDecl :=
  (if r.interface then ClassDecl.blankInterface r.name else ClassDecl.blank r.name).declareAll
    r.items

/-- The class file, with the limits that its methods need. -/
def toBytes (r : ClassRecipe) : Except Error Bytes :=
  match r.build with
  | .error e => .error (.encode e)
  | .ok d => ClassFile.write d true

end ClassRecipe

end ClassAtlas
