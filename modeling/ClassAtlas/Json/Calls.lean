import ClassAtlas.Calls.Graph
import ClassAtlas.Json.Code
import ClassAtlas.Json.Read

/-!
The JSON forms of calls and of the call graph. Calls can be read back.
-/

namespace ClassAtlas

def MethodRef.toJson (m : MethodRef) : JsonValue :=
  .object [("owner", .string m.owner), ("name", .string m.name),
    ("descriptor", .string m.descriptor)]

/-- The method with a JSON form. -/
def MethodRef.ofJson? (v : JsonValue) : Option MethodRef :=
  match v.fields? ["owner", "name", "descriptor"] with
  | some [.string owner, .string name, .string descriptor] => some ⟨owner, name, descriptor⟩
  | _ => none

def CallEdge.toJson (e : CallEdge) : JsonValue :=
  .object [("caller", e.caller.toJson), ("callee", e.callee.toJson), ("kind", .string e.kind.name),
    ("dispatch", .string e.dispatch.name), ("offset", .number e.offset),
    ("resolved", .boolean e.resolved)]

/-- The call with a JSON form. Offsets have 32 bits. -/
def CallEdge.ofJson? (v : JsonValue) : Option CallEdge :=
  match v.fields? ["caller", "callee", "kind", "dispatch", "offset", "resolved"] with
  | some [caller, callee, kind, dispatch, .number offset, .boolean resolved] => do
    let caller ← MethodRef.ofJson? caller
    let callee ← MethodRef.ofJson? callee
    let kind ← kind.word?.bind InvokeKind.ofName?
    let dispatch ← dispatch.word?.bind Dispatch.ofName?
    if 0 ≤ offset ∧ offset < 4294967296 then
      return ⟨caller, callee, kind, dispatch, offset.toNat, resolved⟩
    else none
  | _ => none

/-- A call with its ends in written form. -/
def CallEdge.summary (e : CallEdge) : JsonValue :=
  .array [.number e.offset, .string e.caller.toText, .string e.kind.name,
    .string e.dispatch.name, .string e.callee.toText, .boolean e.resolved]

def DynamicSite.toJson (s : DynamicSite) : JsonValue :=
  .object [("caller", s.caller.toJson), ("name", .string s.name),
    ("descriptor", .string s.descriptor), ("offset", .number s.offset)]

/-- A dynamic call site by its place and name. -/
def DynamicSite.summary (s : DynamicSite) : JsonValue :=
  .array [.number s.offset, .string s.name, .string s.descriptor]

/-- A method with what it calls. -/
def FlowNode.toJson (n : FlowNode) : JsonValue :=
  .object [("method", .string n.method.toText), ("access", .number n.access.bits.toNat),
    ("has_body", .boolean n.hasBody), ("instructions", .number n.instructions.length),
    ("calls", .array (n.calls.map CallEdge.summary)),
    ("dynamic", .array (n.dynamicSites.map DynamicSite.summary))]

/-- The sizes of a call graph. -/
def FlowStats.toJson (s : FlowStats) : JsonValue :=
  .object [("methods", .number s.methods), ("direct_edges", .number s.directEdges),
    ("override_edges", .number s.overrideEdges), ("unresolved_edges", .number s.unresolvedEdges),
    ("dynamic_sites", .number s.dynamicSites), ("decode_failures", .number s.decodeFailures)]

end ClassAtlas
