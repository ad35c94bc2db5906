import ClassAtlas.Workspace.Basic
import ClassAtlas.Workspace.Resolver

/-!
Work in a workspace: questions whose answers are kept for later, or that ask for the runtime layer
when it may not have been put together yet.
-/

namespace ClassAtlas

abbrev Session := StateM Workspace

namespace Session

/-- The layers in order of precedence, after the runtime layer has been asked for. -/
def stack : Session LayerStack := do
  modify Workspace.consult
  return (← get).stack

/-- All layers in order of precedence. -/
def layers : Session (List Layer) := do
  return (← stack).layers

/-- The first layer that holds a unit. -/
def containing? (name : String) : Session (Option Layer) := do
  return (← stack).containing? name

def unit? (name : String) : Session (Option ClassUnit) := do
  return (← stack).unit? name

def hasUnit (name : String) : Session Bool := do
  return (← stack).hasUnit name

def resource? (name : String) : Session (Option Bytes) := do
  return (← stack).resource? name

def hasResource (name : String) : Session Bool := do
  return (← stack).hasResource name

/-- The declaration of the unit that a name stands for. -/
def decodeUnit (name : String) : Session (Except Error (Option ClassDecl)) := do
  let found ← unit? name
  let codec := (← get).codec
  match found with
  | none => return .ok none
  | some u =>
    match codec.decode u.name u.bytes with
    | .ok d => return .ok (some d)
    | .error e => return .error e

def hierarchy : Session HierarchyGraph :=
  Workspace.hierarchyGraph

def flow : Session FlowGraph :=
  Workspace.flowGraph

/-- The nearest common superclass of two types. -/
def commonSuperclass (a b : String) : Session (Option String) := do
  return (← hierarchy).commonSuperclass a b

/-- The file form of a declaration, by the given flags. -/
def encodeUnitWith (d : ClassDecl) (flags : WriterFlags) : Session (Except Error Bytes) := do
  let h ← hierarchy
  return (← get).codec.encode d flags h.oracle

/-- The file form of a declaration, by the flags of the workspace. -/
def encodeUnit (d : ClassDecl) : Session (Except Error Bytes) := do
  encodeUnitWith d (← get).flags

/-- The unit that a name in source or internal form stands for. -/
def resolveName (name : String) : Session (Option String) := do
  if name.isEmpty then return none else return (← stack).resolveName name

def hasType (name : String) : Session Bool := do
  return (← resolveName name).isSome

def members (name : String) : Session (Except Error (Option TypeMembers)) := do
  match ← resolveName name with
  | none => return .ok none
  | some unit =>
    match ← decodeUnit unit with
    | .ok (some d) => return .ok (some (.ofDecl unit d))
    | .ok none => return .ok none
    | .error e => return .error e

/-- The result of a computation that asks what names stand for. -/
def pursue {α : Type} : Inquiry α → Session α
  | .done a => return a
  | .hasType name next => do pursue (next (← hasType name))
  | .members name next => do pursue (next (← members name))

/-- Analyses source texts, given with their names. -/
def analyze {τ : Type} (parser : SourceParser τ) :
    List (String × String) → Session (List (String × ParseOutcome τ))
  | [] => return []
  | (name, text) :: rest => do
    let outcome ← pursue (parser name text)
    return (name, outcome) :: (← analyze parser rest)

end Session

/-- The source texts of a project, ordered by name; of several for one name the first counts. -/
def LayerStack.sourceTexts (s : LayerStack) : List (String × String) :=
  (s.project.foldl
    (fun texts l => l.sources.foldl (fun texts name text => texts.insertIfNew name text) texts)
    (∅ : Std.TreeMap String String)).toList

/-- Analyses every source text of the project. -/
def Session.analyzeSources {τ : Type} (parser : SourceParser τ) :
    Session (List (String × ParseOutcome τ)) := do
  analyze parser (← get).stack.sourceTexts

end ClassAtlas
