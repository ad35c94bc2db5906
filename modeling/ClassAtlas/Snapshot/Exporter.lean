import ClassAtlas.Snapshot.Archive
import ClassAtlas.Text.Quoted

/-!
The exporter of snapshots. Requests are numbered, and only the latest one that has not been taken up
is kept; a worker takes it up, writes the archive unless nothing changed since the last one, and
publishes the outcome.
-/

namespace ClassAtlas

/-- A requested snapshot. -/
structure ExportJob where
  number : Nat
  path : String
  units : List ClassUnit
  deriving DecidableEq, Repr, Inhabited

/-- The state that requests and the worker share. -/
structure ExportState where
  pending : Option ExportJob
  requested : Nat
  completed : Nat
  written : Nat
  /-- Where the last successful export went, and the fingerprint of its units. -/
  last : Option (String × Bytes)
  lastError : Option String
  deriving DecidableEq, Repr, Inhabited

namespace ExportState

/-- The state before any request. -/
def initial : ExportState :=
  ⟨none, 0, 0, 0, none, none⟩

/-- Notes a request in place of one that has not been taken up. -/
def request (s : ExportState) (path : String) (units : List ClassUnit) : ExportState :=
  let number := s.requested + 1
  { s with requested := number, pending := some ⟨number, path, units⟩ }

/-- Takes up the pending request. -/
def take? (s : ExportState) : Option (ExportJob × ExportState) :=
  s.pending.map fun job => (job, { s with pending := none })

/-- Whether the last export wrote the same units to the same place. -/
def repeats (s : ExportState) (job : ExportJob) : Bool :=
  match s.last with
  | some (path, units) => Path.same path job.path && units == Snapshot.fingerprint job.units
  | none => false

def failureText (job : ExportJob) (e : Error) : String :=
  (Error.snapshot s!"{job.path}: {e.message}").message

/-- Publishes the outcome of a job: whether an archive was written, or why not. -/
def publish (s : ExportState) (job : ExportJob) (outcome : Except Error Bool) : ExportState :=
  let completed := max s.completed job.number
  match outcome with
  | .ok wrote =>
    { s with
      completed := completed
      written := if wrote then s.written + 1 else s.written
      last := some (job.path, Snapshot.fingerprint job.units)
      lastError := none }
  | .error e => { s with completed := completed, lastError := some (failureText job e) }

/-- Whether every request has been handled. -/
def isIdle (s : ExportState) : Bool :=
  s.requested ≤ s.completed

end ExportState

/-- Writes snapshots to a path that can be changed between requests. -/
structure Exporter where
  path : String
  state : ExportState
  deriving DecidableEq, Repr, Inhabited

namespace Exporter

def ofPath (path : String) : Exporter :=
  ⟨path, .initial⟩

/-- Lets later requests go to another path. -/
def withPath (x : Exporter) (path : String) : Exporter :=
  { x with path := path }

def request (x : Exporter) (units : List ClassUnit) : Exporter :=
  { x with state := x.state.request x.path units }

def describe (x : Exporter) : String :=
  "SnapshotExporter \x7b path: " ++ Text.quoted x.path ++ " \x7d"

variable {m : Type → Type} [Monad m] [FileAccess m]

/-- Does a job: writes the archive, unless it is there from the last time. -/
def perform (s : ExportState) (job : ExportJob) : m (Except Error Bool) := do
  let kept ← if s.repeats job then FileAccess.present job.path else pure false
  if kept then return .ok false
  else
    match ← Snapshot.write job.path job.units with
    | .ok _ => return .ok true
    | .error e => return .error e

/-- Handles the pending request, if there is one. -/
def settle (x : Exporter) : m Exporter := do
  match x.state.take? with
  | none => return x
  | some (job, s) =>
    let outcome ← perform s job
    return { x with state := s.publish job outcome }

end Exporter

end ClassAtlas
