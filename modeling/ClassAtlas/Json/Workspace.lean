import ClassAtlas.Config.Basic
import ClassAtlas.Json.Declaration
import ClassAtlas.Json.Read
import ClassAtlas.Layer.Basic
import ClassAtlas.Workspace.Resolver

/-!
The JSON forms of configurations, layers and the members of types.
-/

namespace ClassAtlas

/-- The flags with a JSON form. -/
def WriterFlags.ofJson? (v : JsonValue) : Option WriterFlags :=
  v.word?.bind ofName?

def Config.toJson (c : Config) : JsonValue :=
  .object [("primary", .ofOption c.primary), ("libraries", .strings c.libraries),
    ("runtime", .strings c.runtime), ("snapshot", .ofOption c.snapshot),
    ("writer_flags", .string c.flags.name)]

def Layer.toJson (l : Layer) : JsonValue :=
  .object [("name", .string l.name), ("kind", .string l.kind.name),
    ("primary", .boolean l.isPrimary), ("empty", .boolean l.isEmpty),
    ("unit_count", .number l.unitCount),
    ("resource_count", .number l.resourceCount),
    ("units", .array (l.unitList.map fun u => .array [.string u.name, .ofBytes u.bytes])),
    ("resources", .array (l.resources.toList.map fun (name, bytes) =>
      .array [.string name, .ofBytes bytes])),
    ("sources", .array (l.sources.toList.map fun (name, text) => .strings [name, text]))]

/-- A field or method of a type. -/
def MemberInfo.toJson (m : MemberInfo) : JsonValue :=
  .object [("name", .string m.name), ("descriptor", .string m.descriptor),
    ("access", m.access.toJson)]

def TypeMembers.toJson (t : TypeMembers) : JsonValue :=
  .object [("name", .string t.name), ("is_interface", .boolean t.isInterface),
    ("super_name", .ofOption t.superName), ("interfaces", .strings t.interfaces),
    ("fields", .array (t.fields.map MemberInfo.toJson)),
    ("methods", .array (t.methods.map MemberInfo.toJson))]

end ClassAtlas
