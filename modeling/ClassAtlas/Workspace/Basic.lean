import ClassAtlas.Calls.Graph
import ClassAtlas.Layer.Runtime
import ClassAtlas.Snapshot.Exporter
import ClassAtlas.Workspace.Cell

/-!
Workspaces: a primary layer above libraries and the runtime layer, with the graphs that were built
from them and the snapshots of the primary layer. The graphs are kept until an operation that can
change them drops both.
-/

namespace ClassAtlas

/-- A change of the primary layer. -/
inductive PrimaryEdit where
  | putUnit (u : ClassUnit)
  | removeUnit (name : String)
  | putResource (name : String) (bytes : Bytes)
  | removeResource (name : String)
  | attachSource (name text : String)
  deriving DecidableEq, Repr

/-- The layer after a change. -/
def PrimaryEdit.apply (l : Layer) : PrimaryEdit → Layer
  | putUnit u => l.insertUnit u
  | removeUnit name => l.eraseUnit name
  | putResource name bytes => l.insertResource name bytes
  | removeResource name => l.eraseResource name
  | attachSource name text => l.attachSource name text

/-- Layers with the graphs and snapshots that belong to them. -/
structure Workspace where
  primary : Layer
  libraries : List Layer
  runtime : RuntimeClasspath
  codec : Codec
  flags : WriterFlags
  hierarchy : Cell HierarchyGraph
  flow : Cell FlowGraph
  /-- The latest batch of units that were reported as changed. -/
  changed : Std.TreeSet String
  exporter : Exporter

namespace Workspace

/-- The workspace of a primary layer and libraries, whatever parts these played before. -/
def ofLayers (primary : Layer) (libraries : List Layer) (runtime : RuntimeClasspath)
    (snapshotPath : String) : Workspace where
  primary := primary.withKind .primary
  libraries := libraries.map (·.withKind .library)
  runtime := runtime
  codec := ClassFile.codec
  flags := .standard
  hierarchy := .empty
  flow := .empty
  changed := ∅
  exporter := .ofPath snapshotPath

/-- The layers in order of precedence. -/
def stack (w : Workspace) : LayerStack :=
  ⟨w.primary :: w.libraries, w.runtime.layer⟩

/-- Drops both graphs. -/
def invalidate (w : Workspace) : Workspace :=
  { w with hierarchy := w.hierarchy.drop, flow := w.flow.drop }

def withRuntime (w : Workspace) (r : RuntimeClasspath) : Workspace :=
  { w with runtime := r }.invalidate

def withCodec (w : Workspace) (c : Codec) : Workspace :=
  { w with codec := c }.invalidate

def withFlags (w : Workspace) (flags : WriterFlags) : Workspace :=
  { w with flags := flags }

def withSnapshotPath (w : Workspace) (path : String) : Workspace :=
  { w with exporter := w.exporter.withPath path }

/-- Changes the primary layer. Graphs do not see the change before it is reported. -/
def edit (w : Workspace) (e : PrimaryEdit) : Workspace :=
  { w with primary := e.apply w.primary }

/-- Adds a library below the others. -/
def addLibrary (w : Workspace) (l : Layer) : Workspace :=
  { w with libraries := w.libraries ++ [l.withKind .library] }.invalidate

/-- Removes the first library of a name. -/
def removeLibrary (w : Workspace) (name : String) : Except Error (Layer × Workspace) :=
  match w.libraries.find? (·.name == name) with
  | none => .error (.layerNotFound (.unnamed name))
  | some l =>
    .ok (l, { w with libraries := w.libraries.eraseP (·.name == name) }.invalidate)

def moveLibrary (w : Workspace) (source target : Nat) : Except Error Workspace :=
  let count := w.libraries.length
  match w.libraries[source]? with
  | none => .error (.layerNotFound (.position source target count))
  | some l =>
    if target < count then
      .ok { w with libraries := (w.libraries.eraseIdx source).insertIdx target l }.invalidate
    else .error (.layerNotFound (.position source target count))

/-- Marks the runtime layer as asked for. -/
def consult (w : Workspace) : Workspace :=
  { w with runtime := w.runtime.populate }

/-- Whether building a graph asks for the runtime layer: without project units there is nothing to
look for. -/
def consultForGraphs (w : Workspace) : Workspace :=
  if w.stack.unitNames.isEmpty then w else w.consult

/-- The inheritance graph, and the workspace that keeps it. -/
def hierarchyGraph (w : Workspace) : HierarchyGraph × Workspace :=
  match w.hierarchy.value with
  | some g => (g, w)
  | none =>
    let (g, cell) := w.hierarchy.get fun _ => .ofStack w.stack w.codec
    (g, { w.consultForGraphs with hierarchy := cell })

/-- The call graph, and the workspace that keeps it and the inheritance graph that it rests on. -/
def flowGraph (w : Workspace) : FlowGraph × Workspace :=
  let (h, w) := w.hierarchyGraph
  match w.flow.value with
  | some g => (g, w)
  | none =>
    let (g, cell) := w.flow.get fun _ => .ofStack w.stack w.codec h
    (g, { w.consultForGraphs with flow := cell })

/-- Notes which units of the primary layer were changed in place of the batch before. A batch with
units drops the graphs, and every batch asks for a snapshot. -/
def reportChanges (w : Workspace) (names : Std.TreeSet String) : Workspace :=
  let w := { w with changed := names }
  let w := if names.isEmpty then w else w.invalidate
  { w with exporter := w.exporter.request w.primary.unitList }

/-- Waits until all snapshots that were asked for have been handled. -/
def awaitSnapshot {m : Type → Type} [Monad m] [FileAccess m] (w : Workspace) : m Workspace := do
  return { w with exporter := ← w.exporter.settle }

def describe (w : Workspace) : String :=
  "Workspace \x7b primary: " ++ Text.quoted w.primary.name ++ ", libraries: [" ++
    ", ".intercalate (w.libraries.map fun l => Text.quoted l.name) ++ "], hierarchy_built: " ++
    toString w.hierarchy.isBuilt ++ ", flow_built: " ++ toString w.flow.isBuilt ++ " \x7d"

end Workspace

end ClassAtlas
