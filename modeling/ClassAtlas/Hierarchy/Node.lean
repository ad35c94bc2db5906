import ClassAtlas.ClassFile.Declaration
import ClassAtlas.Error
import ClassAtlas.Layer.Basic

/-!
What the inheritance graph is made of: types with their methods, and the ways from a type to those
it inherits from.
-/

namespace ClassAtlas

/-- How a type inherits from another. -/
inductive EdgeKind where
  | superclass
  | interface
  deriving DecidableEq, Repr, Inhabited

namespace EdgeKind

def name : EdgeKind → String
  | superclass => "extends"
  | interface => "implements"

def all : List EdgeKind := [superclass, interface]

/-- The kind that a word stands for, in upper or lower case. -/
def ofWord (word : String) : Except NameError EdgeKind :=
  match word.map Char.toLower with
  | "extends" => .ok superclass
  | "extend" => .ok superclass
  | "super" => .ok superclass
  | "implements" => .ok interface
  | "implement" => .ok interface
  | "interface" => .ok interface
  | _ => .error (.notEdgeKind word)

end EdgeKind

/-- A declared way from a type to one that it inherits from. -/
structure HierarchyEdge where
  child : String
  parent : String
  kind : EdgeKind
  deriving DecidableEq, Repr

/-- A method as far as inheritance is concerned. -/
structure MethodSig where
  name : String
  descriptor : String
  access : Access
  deriving DecidableEq, Repr

/-- Whether a call can end up in the method by dispatch: it has a body, belongs to instances, is
visible to subtypes and is no initialiser. -/
def MethodSig.isOverridable (m : MethodSig) : Bool :=
  !(m.access.isStatic || m.access.isPrivate || m.access.isAbstract) && m.name != "<init>" &&
    m.name != "<clinit>"

/-- A type of the inheritance graph. -/
structure TypeNode where
  name : String
  access : Access
  /-- The part that the layer plays which the type comes from. -/
  layer : LayerKind
  superName : Option String
  interfaces : List String
  methods : List MethodSig
  deriving DecidableEq, Repr

namespace TypeNode

/-- The node of a declaration that was found in a layer of the given kind. -/
def ofDecl (d : ClassDecl) (layer : LayerKind) : TypeNode where
  name := d.name
  access := d.access
  layer := layer
  superName := d.superName
  interfaces := d.interfaces
  methods := d.methods.map fun m => ⟨m.name, m.descriptor, m.access⟩

def isInterface (n : TypeNode) : Bool := n.access.isInterface

/-- The direct supertypes: the superclass first, then the interfaces. -/
def parents (n : TypeNode) : List String := n.superName.toList ++ n.interfaces

/-- The first method of a name and descriptor. -/
def declares? (n : TypeNode) (name descriptor : String) : Option MethodSig :=
  n.methods.find? fun m => m.name == name && m.descriptor == descriptor

/-- Whether there is a method of a name and descriptor. -/
def declares (n : TypeNode) (name descriptor : String) : Bool :=
  (n.declares? name descriptor).isSome

end TypeNode

/-- The ways from a declared type to its parents. -/
def ClassDecl.inheritance (d : ClassDecl) : List (String × EdgeKind) :=
  d.superName.toList.map (·, .superclass) ++ d.interfaces.map (·, .interface)

end ClassAtlas
