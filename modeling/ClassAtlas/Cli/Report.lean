import ClassAtlas.Calls.Graph
import ClassAtlas.Layer.Stack
import ClassAtlas.Text.Table

/-!
The lines that commands print for human readers.
-/

namespace ClassAtlas.Cli.Report

def line (text : String) : String := text ++ "\n"

/-- The title of a report. -/
def header (text : String) : String := line s!"🚀 {text}"

def status (icon label value : String) : String := line s!"{icon} {label}: {value}"

def success (text : String) : String := line s!"✅ {text}"

def failure (text : String) : String := line s!"❌ {text}"

def warning (text : String) : String := line s!"⚠️ {text}"

def chapter (title : String) : String := line "" ++ line s!"━{title}━"

/-- What stands for an empty list. -/
def nothing : String := line "  (none)"

/-- The part that a layer plays, in brackets. -/
def badge (kind : LayerKind) : String := s!"[{kind.name}]"

/-- The layers in order of precedence, as a table. -/
def layersTable (layers : List Layer) : String :=
  Text.Table.render ["#", "Layer", "Kind", "Units", "Resources"]
    (layers.zipIdx.map fun (l, i) =>
      [toString i, l.name, l.kind.name, toString l.unitCount, toString l.resourceCount])

/-- Types, each with the part that its layer plays. -/
def types (g : HierarchyGraph) (names : List String) : String :=
  if names.isEmpty then nothing
  else String.join (names.map fun name =>
    match g.node? name with
    | some n => line s!"  {badge n.layer} {name}"
    | none => line s!"  [dangling] {name}")

def leftAligned (width : Nat) (text : String) : String :=
  text ++ String.ofList (List.replicate (width - text.length) ' ')

def call (e : CallEdge) (target : MethodRef) : String :=
  let marker := if e.isDangling then " (unresolved)" else ""
  let place := s!"@{leftAligned 5 (toString e.offset)} {leftAligned 16 e.kind.name}"
  line s!"  {place} {e.dispatch.name} {target.toText}{marker}"

def dynamicSite (s : DynamicSite) : String :=
  line s!"  @{leftAligned 5 (toString s.offset)} ⚡ {s.name}{s.descriptor}"

def blocks (g : BlockGraph) : String :=
  chapter " Basic blocks " ++ String.join (g.blocks.map fun b =>
    let next := (g.successors b.index).map fun n => s!"B{n}"
    let leads := if next.isEmpty then "exit" else ", ".intercalate next
    line s!"  B{leftAligned 3 (toString b.index)} [{b.start}..{b.stop})  ➡️ {leads}")

/-- A way to a parent that no layer holds. -/
def dangling (e : HierarchyEdge) : String :=
  line s!"  {e.child} {e.kind.name} ➡️ {e.parent}"

/-- The sizes of a workspace and its graphs, as a table. -/
def stats (layers units : Nat) (h : HierarchyStats) (f : FlowStats) : String :=
  Text.Table.ofStats [
    ("Layers", toString layers),
    ("Project units", toString units),
    ("Types", s!"{h.types} ({h.runtimeTypes} runtime)"),
    ("Hierarchy edges", s!"{h.edges} ({h.danglingEdges} dangling)"),
    ("Methods", toString f.methods),
    ("Direct calls", s!"{f.directEdges} ({f.unresolvedEdges} unresolved)"),
    ("Override edges", toString f.overrideEdges),
    ("Dynamic sites", toString f.dynamicSites),
    ("Decode failures", toString h.decodeFailures)]

end ClassAtlas.Cli.Report
