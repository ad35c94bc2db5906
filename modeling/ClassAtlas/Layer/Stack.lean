import Std.Data.TreeSet
import ClassAtlas.Layer.Basic

/-!
Stacks of layers. A name stands for what the first layer that holds it says: the project layers come
first, in order, and the runtime layer is asked last.
-/

namespace ClassAtlas

/-- The layers of a project, in order of precedence, above the runtime layer. -/
structure LayerStack where
  project : List Layer
  runtime : Layer
  deriving Inhabited

namespace LayerStack

/-- All layers in order of precedence. -/
def layers (s : LayerStack) : List Layer :=
  s.project ++ [s.runtime]

/-- The first layer that holds a unit. -/
def containing? (s : LayerStack) (name : String) : Option Layer :=
  s.layers.find? (·.containsUnit name)

def unit? (s : LayerStack) (name : String) : Option ClassUnit :=
  s.layers.findSome? (·.unit? name)

def hasUnit (s : LayerStack) (name : String) : Bool :=
  s.layers.any (·.containsUnit name)

def resource? (s : LayerStack) (name : String) : Option Bytes :=
  s.layers.findSome? (·.resource? name)

def hasResource (s : LayerStack) (name : String) : Bool :=
  s.layers.any (·.containsResource name)

/-- The names of all units of the project. -/
def unitNames (s : LayerStack) : Std.TreeSet String :=
  Std.TreeSet.ofList (s.project.flatMap Layer.unitNames)

/-- The source text that the project attaches to a name. -/
def source? (s : LayerStack) (name : String) : Option String :=
  s.project.findSome? (·.source? name)

end LayerStack

end ClassAtlas
