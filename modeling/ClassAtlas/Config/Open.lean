import ClassAtlas.Config.Basic
import ClassAtlas.Workspace.Basic

/-!
Opening of configured workspaces.
-/

namespace ClassAtlas.Config

/-- What a workspace takes from its surroundings: the installation of the host, if one is known, and
where snapshots go unless the configuration says otherwise. -/
structure Surroundings where
  hostHome : Option String
  snapshotPath : String
  deriving Repr, Inhabited

variable {m : Type → Type} [Monad m] [FileAccess m]

/-- Loads libraries, in order. -/
def loadLibraries : List String → m (Except ConfigError (List Layer))
  | [] => return .ok []
  | path :: rest => do
    match ← Layer.load path .library with
    | .error e => return .error (.library path e)
    | .ok l =>
      match ← loadLibraries rest with
      | .error e => return .error e
      | .ok others => return .ok (l :: others)

/-- Loads the primary layer; without a path it is empty. -/
def loadPrimary (path : Option String) : m (Except ConfigError Layer) := do
  match path with
  | none => return .ok (.empty "primary" .primary)
  | some path =>
    match ← Layer.load path .primary with
    | .error e => return .error (.primaryLayer path e)
    | .ok l => return .ok l

/-- The runtime archives of a configuration, or else those of the host. -/
def runtimePaths (c : Config) (s : Surroundings) : m (List String) :=
  if c.runtime.isEmpty then
    match s.hostHome with
    | some home => RuntimeClasspath.pathsIn home
    | none => return []
  else return c.runtime

def openWorkspace (c : Config) (s : Surroundings) : m (Except ConfigError Workspace) := do
  match ← loadPrimary c.primary with
  | .error e => return .error e
  | .ok primary =>
    match ← loadLibraries c.libraries with
    | .error e => return .error e
    | .ok libraries =>
      let runtime ← RuntimeClasspath.ofPaths (← runtimePaths c s)
      let w := Workspace.ofLayers primary libraries runtime (c.snapshot.getD s.snapshotPath)
      return .ok (w.withFlags c.flags)

end ClassAtlas.Config
