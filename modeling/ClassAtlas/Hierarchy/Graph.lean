import ClassAtlas.ClassFile.Codec
import ClassAtlas.Hierarchy.Node
import ClassAtlas.Hierarchy.Reach
import ClassAtlas.Layer.Stack

/-!
The inheritance graph of a stack of layers. It starts from the units of the project and follows
parents into all layers; parents that no layer holds are noted as dangling, and units that cannot be
decoded as failures.
-/

namespace ClassAtlas

/-- Types with their inheritance. -/
structure HierarchyGraph where
  nodes : Std.TreeMap String TypeNode
  /-- For every declared parent, the types that declare it. -/
  children : Std.TreeMap String (Std.TreeSet String)
  /-- Declared parents that no layer holds, in the order in which they were met. -/
  dangling : List HierarchyEdge
  failures : Std.TreeMap String Error
  edgeCount : Nat
  deriving Inhabited

namespace HierarchyGraph

/-- The graph without types. -/
def empty : HierarchyGraph :=
  ⟨∅, ∅, [], ∅, 0⟩

/-- Notes that a type declares a parent. -/
def addChild (children : Std.TreeMap String (Std.TreeSet String)) (child parent : String) :
    Std.TreeMap String (Std.TreeSet String) :=
  children.insert parent ((children.getD parent ∅).insert child)

/-- The graph with a decoded type, and with its parents for which `known` does not hold noted as
dangling. -/
def addType (g : HierarchyGraph) (known : String → Bool) (name : String) (d : ClassDecl)
    (layer : LayerKind) : HierarchyGraph where
  nodes := g.nodes.insert name (.ofDecl d layer)
  children := d.parents.foldl (fun children parent => addChild children name parent) g.children
  dangling := g.dangling ++
    (d.inheritance.filter fun (parent, _) => !known parent).map fun (parent, kind) =>
      ⟨name, parent, kind⟩
  failures := g.failures
  edgeCount := g.edgeCount + d.parents.length

/-- The graph with a unit that could not be decoded. -/
def addFailure (g : HierarchyGraph) (name : String) (e : Error) : HierarchyGraph :=
  { g with failures := g.failures.insert name e }

/-- The names of a list that are known and have not been seen, each once, and the seen names with
them. -/
def discover (known : String → Bool) (seen : Std.TreeSet String) :
    List String → Std.TreeSet String × List String
  | [] => (seen, [])
  | name :: names =>
    if !seen.contains name && known name then
      let (seen, rest) := discover known (seen.insert name) names
      (seen, name :: rest)
    else discover known seen names

/-- Whether a name has been seen, or else stands for a unit. -/
def isKnown (stack : LayerStack) (seen : Std.TreeSet String) (name : String) : Bool :=
  seen.contains name || stack.hasUnit name

/-- The graph with the unit of a name, and the parents that the unit declares. Parents that have been
seen are not looked up again. -/
def visit (stack : LayerStack) (codec : Codec) (seen : Std.TreeSet String) (g : HierarchyGraph)
    (name : String) : HierarchyGraph × List String :=
  match stack.unit? name with
  | none => (g, [])
  | some u =>
    match codec.decode u.name u.bytes with
    | .error e => (g.addFailure name e, [])
    | .ok d =>
      let layer := ((stack.containing? name).map Layer.kind).getD .runtime
      (g.addType (isKnown stack seen) name d layer, d.parents)

/-- The names of all units in a stack, those that hide one another counted apart. -/
def allNames (stack : LayerStack) : List String :=
  stack.layers.flatMap Layer.unitNames

/-- The number of units that have not been seen. -/
def unseen (stack : LayerStack) (seen : Std.TreeSet String) : Nat :=
  (allNames stack).countP fun name => !seen.contains name

/-- A name that stands for a unit is among the names of all units. -/
theorem mem_allNames {stack : LayerStack} {name : String} (h : stack.hasUnit name = true) :
    name ∈ allNames stack := by
  simp only [LayerStack.hasUnit, List.any_eq_true] at h
  obtain ⟨l, hl, hn⟩ := h
  exact List.mem_flatMap.mpr ⟨l, hl, Std.TreeMap.mem_keys.mpr hn⟩

/-- Every discovered name is one less to be seen. -/
theorem unseen_discover (stack : LayerStack) (seen : Std.TreeSet String) (names : List String) :
    unseen stack (discover stack.hasUnit seen names).1 +
      (discover stack.hasUnit seen names).2.length ≤ unseen stack seen := by
  induction names generalizing seen with
  | nil => simp [discover]
  | cons name names ih =>
    rw [discover]
    split
    · rename_i h
      simp only [Bool.and_eq_true, Bool.not_eq_true'] at h
      have hlt : unseen stack (seen.insert name) < unseen stack seen := by
        refine countP_lt_countP (x := name) ?_ (mem_allNames h.2) (by simp [h.1]) (by simp)
        intro y _ hy
        simp only [Std.TreeSet.contains_insert, Bool.not_or, Bool.and_eq_true] at hy
        exact hy.2
      have := ih (seen.insert name)
      simp only [List.length_cons]
      omega
    · exact ih seen

/-- The graph with the units of all queued names, and of all that they lead to. Names that have ever
been queued count as seen. -/
def explore (stack : LayerStack) (codec : Codec) (g : HierarchyGraph) (seen : Std.TreeSet String)
    (queue : List String) : HierarchyGraph :=
  match queue with
  | [] => g
  | name :: queue =>
    let visited := visit stack codec seen g name
    let found := discover stack.hasUnit seen visited.2
    explore stack codec visited.1 found.1 (queue ++ found.2)
termination_by unseen stack seen + queue.length
decreasing_by
  have := unseen_discover stack seen (visit stack codec seen g name).2
  simp only [List.length_append, List.length_cons]
  omega

def ofStack (stack : LayerStack) (codec : Codec) : HierarchyGraph :=
  let names := stack.unitNames
  explore stack codec empty names names.toList

def node? (g : HierarchyGraph) (name : String) : Option TypeNode :=
  g.nodes[name]?

theorem node?_eq_some_iff {g : HierarchyGraph} {name : String} {n : TypeNode} :
    g.node? name = some n ↔ (name, n) ∈ g.nodes.toList := by
  rw [node?, Std.TreeMap.mem_toList_iff_getElem?_eq_some]

/-- Whether there is a node of a name. -/
def contains (g : HierarchyGraph) (name : String) : Bool :=
  g.nodes.contains name

def isInterface (g : HierarchyGraph) (name : String) : Bool :=
  (g.node? name).any TypeNode.isInterface

/-- The declared parents of a type. -/
def directParents (g : HierarchyGraph) (name : String) : List String :=
  ((g.node? name).map TypeNode.parents).getD []

/-- The types that declare a parent of the given name. -/
def directChildren (g : HierarchyGraph) (name : String) : List String :=
  (g.children.getD name ∅).toList

/-- The failure of decoding the unit of a name. -/
def failure? (g : HierarchyGraph) (name : String) : Option Error :=
  g.failures[name]?

/-- Refuses names of units that could not be decoded. -/
def check (g : HierarchyGraph) (name : String) : Except Error Unit :=
  match g.failure? name with
  | some e => .error e.retained
  | none => .ok ()

/-- All supertypes of a type, dangling ones included. -/
def allParents (g : HierarchyGraph) (name : String) : Except Error (Std.TreeSet String) := do
  g.check name
  return Reach.reach g.nodes TypeNode.parents name

/-- All subtypes of a type. -/
def allChildren (g : HierarchyGraph) (name : String) : Except Error (Std.TreeSet String) := do
  g.check name
  return Reach.reach g.children Std.TreeSet.toList name

def isSubtype (g : HierarchyGraph) (child parent : String) : Bool :=
  child == parent ||
    match g.allParents child with
    | .ok parents => parents.contains parent
    | .error _ => false

/-- The nodes of types outside the runtime layer. -/
def projectNodes (g : HierarchyGraph) : Std.TreeMap String TypeNode :=
  g.nodes.filter fun _ n => n.layer != .runtime

/-- The project types that are tied to a type by inheritance among project types, with itself. -/
def family (g : HierarchyGraph) (name : String) : Except Error (Std.TreeSet String) := do
  g.check name
  let nodes := g.projectNodes
  if nodes.contains name then
    let around := nodes.map fun name n => n.parents ++ g.directChildren name
    return ((Reach.reach around id name).filter nodes.contains).insert name
  else return ∅

/-- A type, its superclass, and so on, as far as there are nodes and none comes twice. -/
def superclassChain (g : HierarchyGraph) (name : String) : List String :=
  Reach.path g.nodes TypeNode.superName [] name

/-- The type whose method a method name means on a type: the first that declares it on the
superclass chain, else the nearest among the interfaces of the chain. -/
def resolveMethod (g : HierarchyGraph) (owner name descriptor : String) : Option String :=
  let chain := g.superclassChain owner
  let declares (n : TypeNode) := n.declares name descriptor
  match chain.find? fun c => (g.node? c).any declares with
  | some found => some found
  | none =>
    Reach.nearest? g.nodes TypeNode.interfaces declares ∅
      ((chain.filterMap g.node?).flatMap TypeNode.interfaces)

/-- The parents of a type that no layer holds. -/
def danglingParents (g : HierarchyGraph) (name : String) : List String :=
  (g.dangling.filter (·.child == name)).map (·.parent)

/-- Whether a name is declared as a parent and no layer holds it. -/
def isDangling (g : HierarchyGraph) (name : String) : Bool :=
  g.dangling.any (·.parent == name)

/-- The nearest common superclass of two types. Interfaces and types without one share the root. -/
def commonSuperclass (g : HierarchyGraph) (a b : String) : Option String :=
  if a == b then some a
  else
    match g.node? a, g.node? b with
    | some na, some nb =>
      if na.isInterface || nb.isInterface then some Name.object
      else
        let chain := g.superclassChain a
        some (((g.superclassChain b).find? chain.contains).getD Name.object)
    | _, _ => none

/-- The graph as an oracle for writers. -/
def oracle (g : HierarchyGraph) : TypeOracle where
  commonSuperclass := g.commonSuperclass
  isInterface := g.isInterface

end HierarchyGraph

/-- The sizes of an inheritance graph. -/
structure HierarchyStats where
  types : Nat
  projectTypes : Nat
  runtimeTypes : Nat
  edges : Nat
  danglingEdges : Nat
  decodeFailures : Nat
  deriving DecidableEq, Repr

def HierarchyGraph.stats (g : HierarchyGraph) : HierarchyStats where
  types := g.nodes.size
  projectTypes := g.projectNodes.size
  runtimeTypes := (g.nodes.values.filter fun n => n.layer == .runtime).length
  edges := g.edgeCount
  danglingEdges := g.dangling.length
  decodeFailures := g.failures.size

/-- The sizes as lines of text. -/
def HierarchyStats.report (s : HierarchyStats) : String :=
  "Hierarchy Graph Statistics:\n" ++
    s!"  Types: {s.types} (project: {s.projectTypes}, runtime: {s.runtimeTypes})\n" ++
    s!"  Edges: {s.edges} (dangling: {s.danglingEdges})\n" ++
    s!"  Decode failures: {s.decodeFailures}\n"

end ClassAtlas
