import ClassAtlas.Hierarchy.Graph
import ClassAtlas.Json.Declaration

/-!
The JSON forms of types and of the inheritance graph.
-/

namespace ClassAtlas

/-- A declared way to a parent. -/
def HierarchyEdge.toJson (e : HierarchyEdge) : JsonValue :=
  .object [("child", .string e.child), ("parent", .string e.parent), ("kind", .string e.kind.name)]

/-- A method as far as inheritance is concerned. -/
def MethodSig.toJson (m : MethodSig) : JsonValue :=
  .object [("name", .string m.name), ("descriptor", .string m.descriptor),
    ("access", m.access.toJson)]

def TypeNode.toJson (n : TypeNode) : JsonValue :=
  .object [("name", .string n.name), ("access", n.access.toJson), ("layer", .string n.layer.name),
    ("super_name", .ofOption n.superName), ("interfaces", .strings n.interfaces),
    ("methods", .array (n.methods.map MethodSig.toJson))]

/-- The sizes of an inheritance graph. -/
def HierarchyStats.toJson (s : HierarchyStats) : JsonValue :=
  .object [("types", .number s.types), ("project_types", .number s.projectTypes),
    ("runtime_types", .number s.runtimeTypes), ("edges", .number s.edges),
    ("dangling_edges", .number s.danglingEdges), ("decode_failures", .number s.decodeFailures)]

end ClassAtlas
