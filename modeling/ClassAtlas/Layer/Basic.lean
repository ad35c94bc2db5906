import Std.Data.TreeMap
import ClassAtlas.Unit

/-!
Layers: named collections of units, resources and attached source texts. Every name occurs once in
each of the three, and names are kept in order.
-/

namespace ClassAtlas

/-- The part that a layer plays in a workspace. -/
inductive LayerKind where
  /-- What the workspace is about. -/
  | primary
  /-- What it refers to. -/
  | library
  /-- What the host provides. -/
  | runtime
  deriving DecidableEq, Repr, Inhabited

namespace LayerKind

def name : LayerKind → String
  | primary => "primary"
  | library => "library"
  | runtime => "runtime"

def ofName? : String → Option LayerKind
  | "primary" => some primary
  | "library" => some library
  | "runtime" => some runtime
  | _ => none

end LayerKind

/-- A named collection of units, resources and source texts. -/
structure Layer where
  name : String
  kind : LayerKind
  units : Std.TreeMap String Bytes
  resources : Std.TreeMap String Bytes
  sources : Std.TreeMap String String
  deriving Inhabited

namespace Layer

/-- The layer that holds nothing. -/
def empty (name : String) (kind : LayerKind) : Layer :=
  ⟨name, kind, ∅, ∅, ∅⟩

/-- The same content in another part. -/
def withKind (l : Layer) (kind : LayerKind) : Layer :=
  { l with kind := kind }

/-- Whether the layer is what its workspace is about. -/
def isPrimary (l : Layer) : Bool :=
  l.kind == .primary

def unit? (l : Layer) (name : String) : Option ClassUnit :=
  l.units[name]?.map fun bytes => ⟨name, bytes⟩

def containsUnit (l : Layer) (name : String) : Bool :=
  l.units.contains name

/-- The layer with a unit in place of the one of the same name. -/
def insertUnit (l : Layer) (u : ClassUnit) : Layer :=
  { l with units := l.units.insert u.name u.bytes }

def eraseUnit (l : Layer) (name : String) : Layer :=
  { l with units := l.units.erase name }

/-- The names of all units, in order. -/
def unitNames (l : Layer) : List String :=
  l.units.keys

/-- All units, ordered by name. -/
def unitList (l : Layer) : List ClassUnit :=
  l.units.toList.map fun (name, bytes) => ⟨name, bytes⟩

def unitCount (l : Layer) : Nat :=
  l.units.size

def resource? (l : Layer) (name : String) : Option Bytes :=
  l.resources[name]?

def containsResource (l : Layer) (name : String) : Bool :=
  l.resources.contains name

/-- The layer with a resource in place of the one of the same name. -/
def insertResource (l : Layer) (name : String) (bytes : Bytes) : Layer :=
  { l with resources := l.resources.insert name bytes }

def eraseResource (l : Layer) (name : String) : Layer :=
  { l with resources := l.resources.erase name }

def resourceCount (l : Layer) : Nat :=
  l.resources.size

/-- The layer with a source text attached to the name of a unit. -/
def attachSource (l : Layer) (name text : String) : Layer :=
  { l with sources := l.sources.insert name text }

/-- The source text attached to a name. -/
def source? (l : Layer) (name : String) : Option String :=
  l.sources[name]?

/-- Whether there are neither units nor resources. -/
def isEmpty (l : Layer) : Bool :=
  l.units.isEmpty && l.resources.isEmpty

end Layer

end ClassAtlas
