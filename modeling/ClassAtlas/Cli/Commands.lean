import ClassAtlas.Json.Calls
import ClassAtlas.Json.Hierarchy
import ClassAtlas.Json.Workspace
import ClassAtlas.Cli.Report
import ClassAtlas.Workspace.Session

/-!
The commands: what each of them finds out in a workspace, and how it reports that to a human reader
or as data.
-/

namespace ClassAtlas.Cli

/-- What a command prints. -/
structure Reply where
  out : String
  err : String
  deriving DecidableEq, Repr, Inhabited

/-- Why a command failed. -/
inductive Failure where
  | known (error : Error)
  | noMethod (method : MethodRef)
  | snapshot (text : String)
  /-- A wait that would end behind the last second of the clock. -/
  | wait (seconds : Nat)
  deriving DecidableEq, Repr

def Failure.message : Failure → String
  | known e => e.message
  | noMethod m => s!"no method {m.toText} in the project layers"
  | snapshot text => s!"snapshot failed: {text}"
  | wait seconds => s!"the clock has no time {seconds}s ahead"

/-- A reply to a human reader. -/
def Reply.text (out : String) : Reply := ⟨out, ""⟩

/-- A reply as data, in an envelope that names the command. -/
def Reply.data (command : String) (data : JsonValue) : Reply :=
  .text (Report.line (JsonValue.render
    (.object [("command", .string command), ("ok", .boolean true), ("data", data)])))

def reply (json : Bool) (command : String) (text : String) (data : JsonValue) : Reply :=
  if json then .data command data else .text text

/-- The type that a name stands for, or would stand for. -/
def typeName (name : String) : Session String := do
  return (← Session.resolveName name).getD (Name.toInternal name)

/-- Shows the layers in order of precedence. -/
def layers (json : Bool) : Session Reply := do
  let ls ← Session.layers
  let rows := ls.map fun l => JsonValue.object [("name", .string l.name),
    ("kind", .string l.kind.name), ("units", .number l.unitCount),
    ("resources", .number l.resourceCount)]
  return reply json "layers"
    (Report.header "Resolution order" ++ Report.line (Report.layersTable ls)) (.array rows)

/-- Shows which layer a unit comes from, or else a resource. -/
def resolve (json : Bool) (name : String) : Session Reply := do
  let unit ← typeName name
  let (found, layer) ← match ← Session.containing? unit with
    | some l => pure (unit, some l)
    | none => pure (name, (← Session.layers).find? (·.containsResource name))
  if json then
    return .data "resolve" (.object [("name", .string found),
      ("layer", .ofOption (layer.map Layer.name)),
      ("kind", .ofOption (layer.map fun l => l.kind.name))])
  else
    match layer with
    | some l => return .text (Report.status "📦" found s!"{Report.badge l.kind} {l.name}")
    | none => return ⟨"", Report.warning s!"{name} not found in any layer"⟩

def typesReply (json : Bool) (command title name : String) (g : HierarchyGraph)
    (names : List String) : Reply :=
  reply json command (Report.chapter title ++ Report.types g names)
    (.object [("name", .string name), (command, .strings names)])

/-- Shows the supertypes of a type. -/
def parents (json : Bool) (name : String) (all : Bool) : Session (Except Failure Reply) := do
  let name ← typeName name
  let g ← Session.hierarchy
  let found :=
    if all then g.allParents name
    else (g.check name).map fun _ => Std.TreeSet.ofList (g.directParents name)
  match found with
  | .error e => return .error (.known e)
  | .ok found =>
    return .ok (typesReply json "parents" s!" ⬆️ Supertypes of {name} " name g found.toList)

/-- Shows the subtypes of a type. -/
def children (json : Bool) (name : String) (all : Bool) : Session (Except Failure Reply) := do
  let name ← typeName name
  let g ← Session.hierarchy
  let found := if all then g.allChildren name else .ok (Std.TreeSet.ofList (g.directChildren name))
  match found with
  | .error e => return .error (.known e)
  | .ok found =>
    return .ok (typesReply json "children" s!" ⬇️ Subtypes of {name} " name g found.toList)

/-- The lines for human readers about what a method calls. -/
def callsText (n : FlowNode) (blocks : Bool) : String :=
  let listed := String.join (n.calls.map fun e => Report.call e e.callee) ++
    String.join (n.dynamicSites.map Report.dynamicSite)
  Report.chapter s!" 🔗 Calls from {n.method.toText} " ++
    (if n.calls.isEmpty && n.dynamicSites.isEmpty then Report.nothing else listed) ++
    (if blocks then Report.blocks n.blocks else "")

def callsData (n : FlowNode) (blocks : Bool) : JsonValue :=
  .object ([("method", n.method.toJson), ("calls", .array (n.calls.map CallEdge.toJson)),
    ("dynamic_sites", .array (n.dynamicSites.map DynamicSite.toJson))] ++
    (if blocks then [("blocks", n.blocks.toJson)] else []))

def calls (json : Bool) (method : String) (blocks : Bool) : Session (Except Failure Reply) := do
  match MethodRef.ofText method with
  | .error e => return .error (.known (.invalidName e))
  | .ok m =>
    let owner ← typeName m.owner
    let g ← Session.flow
    match g.flowFor { m with owner } with
    | .error e => return .error (.known e)
    | .ok none => return .error (.noMethod m)
    | .ok (some n) => return .ok (reply json "calls" (callsText n blocks) (callsData n blocks))

/-- Shows the calls that may reach a method. -/
def callers (json : Bool) (method : String) : Session (Except Failure Reply) := do
  match MethodRef.ofText method with
  | .error e => return .error (.known (.invalidName e))
  | .ok m =>
    let owner ← typeName m.owner
    let m := { m with owner }
    let found := (← Session.flow).callersOf m
    let listed := String.join (found.map fun e => Report.call e e.caller)
    return .ok (reply json "callers"
      (Report.chapter s!" ⬅️ Callers of {m.toText} " ++
        if found.isEmpty then Report.nothing else listed)
      (.object [("method", m.toJson), ("callers", .array (found.map CallEdge.toJson))]))

/-- Shows the declared parents that no layer holds. -/
def dangling (json : Bool) : Session Reply := do
  let edges := (← Session.hierarchy).dangling
  let listed :=
    if edges.isEmpty then Report.success "Every supertype resolves"
    else String.join (edges.map Report.dangling)
  return reply json "dangling" (Report.chapter " ⚠️ Dangling references " ++ listed)
    (.array (edges.map HierarchyEdge.toJson))

/-- Shows the sizes of the graphs. -/
def stats (json : Bool) : Session Reply := do
  let h := (← Session.hierarchy).stats
  let f := (← Session.flow).stats
  let layers := (← Session.layers).length
  let units := (← get).stack.unitNames.size
  return reply json "stats"
    (Report.header "Workspace statistics" ++ Report.line (Report.stats layers units h f))
    (.object [("hierarchy", h.toJson), ("flow", f.toJson)])

/-- Seconds that the clock has left. It counts them in 63 bits, and a day of them may be over. -/
def longestWait : Nat := 0x8000000000000000 - 86400

/-- Writes a snapshot of the primary layer, and waits for it up to the given number of seconds. -/
def snapshot {m : Type → Type} [Monad m] [FileAccess m] (json : Bool) (w : Workspace)
    (out : Option String) (timeout : Nat) : m (Except Failure Reply) := do
  if timeout > longestWait then return .error (.wait timeout)
  else
    let w := match out with
      | some path => w.withSnapshotPath path
      | none => w
    let w ← (w.reportChanges ∅).awaitSnapshot
    match w.exporter.state.lastError with
    | some text => return .error (.snapshot text)
    | none =>
      let path := w.exporter.path
      let count := w.primary.unitCount
      return .ok (reply json "snapshot" (Report.status "💾" "Snapshot" s!"{path} ({count} units)")
        (.object [("path", .string path), ("units", .number count)]))

end ClassAtlas.Cli
