import ClassAtlas.Layer.Load

/-!
The runtime layer: what the host provides. It is put together when it is first asked for and stays
the same from then on.
-/

namespace ClassAtlas

/-- The runtime layer, and whether it has been asked for. It plays that part whatever it was before. -/
structure RuntimeClasspath where
  layer : Layer
  populated : Bool
  isRuntime : layer.kind = .runtime

namespace RuntimeClasspath

/-- The name of a runtime layer that is put together from several archives. -/
def layerName : String := "runtime"

def onDemand (l : Layer) : RuntimeClasspath :=
  ⟨l.withKind .runtime, false, rfl⟩

/-- A classpath that is there from the start. -/
def ofLayer (l : Layer) : RuntimeClasspath :=
  ⟨l.withKind .runtime, true, rfl⟩

/-- A classpath without units. -/
def empty : RuntimeClasspath :=
  ofLayer (.empty layerName .runtime)

instance : Inhabited RuntimeClasspath := ⟨empty⟩

/-- The classpath after it has been asked for. -/
def populate (r : RuntimeClasspath) : RuntimeClasspath :=
  { r with populated := true }

/-- The layer with the units of another, those it has itself excepted. -/
def addMissing (l other : Layer) : Layer :=
  other.unitList.foldl (fun l u => if l.containsUnit u.name then l else l.insertUnit u) l

/-- The units of several layers under one name; earlier layers win. -/
def merge (layers : List Layer) : Layer :=
  layers.foldl addMissing (.empty layerName .runtime)

def describe (r : RuntimeClasspath) : String :=
  "RuntimeClasspath \x7b populated: " ++ toString r.populated ++ " \x7d"

/-- Where an installation of the host may keep its units, best place first. -/
def candidates (home : String) : List String :=
  [Path.join (Path.join home "jmods") "java.base.jmod",
    Path.join (Path.join (Path.join home "jre") "lib") "rt.jar",
    Path.join (Path.join home "lib") "rt.jar"]

variable {m : Type → Type} [Monad m] [FileAccess m]

/-- Loads archives and leaves out those that cannot be read. -/
def loadReadable : List String → m (List Layer)
  | [] => return []
  | path :: rest => do
    let loaded ← Layer.load path .runtime
    let others ← loadReadable rest
    match loaded with
    | .ok l => return l :: others
    | .error _ => return others

def ofPaths (paths : List String) : m RuntimeClasspath := do
  return onDemand (merge (← loadReadable paths))

/-- The first of some paths that leads to a file. -/
def firstFile : List String → m (List String)
  | [] => return []
  | path :: rest => do
    if ← FileAccess.isFile path then return [path] else firstFile rest

/-- The archives of an installation of the host. -/
def pathsIn (home : String) : m (List String) :=
  firstFile (candidates home)

end RuntimeClasspath

end ClassAtlas
