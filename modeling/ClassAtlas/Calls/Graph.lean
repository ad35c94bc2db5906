import ClassAtlas.Calls.Edge
import ClassAtlas.Code.Blocks
import ClassAtlas.Code.Decode
import ClassAtlas.Hierarchy.Graph

/-!
The call graph of the units of a project. A call has an edge to the method that it names, and where
the receiver decides, one to every override that a receiver of the named type can have.
-/

namespace ClassAtlas

/-- A method of the call graph, with what its code calls in code order. -/
structure FlowNode where
  method : MethodRef
  access : Access
  calls : List CallEdge
  dynamicSites : List DynamicSite
  instructions : List Instruction
  handlers : List Handler
  deriving DecidableEq, Repr

namespace FlowNode

/-- Whether the method has code. -/
def hasBody (n : FlowNode) : Bool := !n.instructions.isEmpty

/-- The basic blocks of the method. -/
def blocks (n : FlowNode) : BlockGraph :=
  .ofInstructions n.instructions n.handlers

end FlowNode

/-- The methods of a project and the calls between them. -/
structure FlowGraph where
  nodes : Std.TreeMap MethodRef FlowNode
  /-- For every decoded unit, its methods in order. -/
  byOwner : Std.TreeMap String (List MethodRef)
  /-- For every callee, the calls that may reach it. -/
  callers : Std.TreeMap MethodRef (List CallEdge)
  failures : Std.TreeMap String Error
  deriving Inhabited

namespace FlowGraph

/-- The type on which a call looks its method up. Arrays have the methods of the root. -/
def receiverType (call : Invocation) : String :=
  if call.owner.startsWith "[" then Name.object else call.owner

/-- The type whose method a receiver of the given type runs, if the receiver is a class and the
method can be reached by dispatch. -/
def override? (h : HierarchyGraph) (name descriptor receiver : String) : Option String :=
  if (h.node? receiver).any fun n => !n.isInterface then
    match h.resolveMethod receiver name descriptor with
    | some target =>
      let found := (h.node? target).bind fun n => n.declares? name descriptor
      if found.any MethodSig.isOverridable then some target else none
    | none => none
  else none

/-- The types with a method that a dispatched call on a type may run, without the declaring one. -/
def overrides (h : HierarchyGraph) (owner name descriptor : String) (declaring : Option String) :
    List String :=
  let below :=
    match h.allChildren owner with
    | .ok types => types
    | .error _ => ∅
  let targets := (below.insert owner).toList.filterMap (override? h name descriptor)
  (Std.TreeSet.ofList (targets.filter fun t => declaring != some t)).toList

def callEdges (h : HierarchyGraph) (caller : MethodRef) (offset : Nat) (call : Invocation) :
    List CallEdge :=
  let owner := receiverType call
  let declaring := h.resolveMethod owner call.name call.descriptor
  let edge (target : String) (dispatch : Dispatch) (resolved : Bool) : CallEdge :=
    ⟨caller, ⟨target, call.name, call.descriptor⟩, call.kind, dispatch, offset, resolved⟩
  let direct := edge (declaring.getD owner) .direct declaring.isSome
  if call.kind.isDispatched then
    direct :: (overrides h owner call.name call.descriptor declaring).map fun target =>
      edge target .override true
  else [direct]

def instructionCalls (h : HierarchyGraph) (caller : MethodRef) (i : Instruction) : List CallEdge :=
  match i.operand with
  | .invoke call => callEdges h caller i.offset call
  | _ => []

/-- The dynamic call site that an instruction is, if it is one. -/
def dynamicSite? (caller : MethodRef) (i : Instruction) : Option DynamicSite :=
  match i.operand with
  | .dynamic name descriptor => some ⟨caller, name, descriptor, i.offset⟩
  | _ => none

/-- The instructions and handlers of a method; one without a body has none. -/
def methodCode (d : ClassDecl) (m : MethodDecl) :
    Except DecodeError (List Instruction × List Handler) :=
  match m.body with
  | none => .ok ([], [])
  | some body =>
    match d.instructions body with
    | .ok instructions => .ok (instructions, body.handlers)
    | .error e => .error e

def methodNode (h : HierarchyGraph) (d : ClassDecl) (m : MethodDecl) :
    Except DecodeError FlowNode :=
  match methodCode d m with
  | .error e => .error e
  | .ok (instructions, handlers) =>
    let method : MethodRef := ⟨d.name, m.name, m.descriptor⟩
    .ok {
      method, access := m.access
      calls := instructions.flatMap (instructionCalls h method)
      dynamicSites := instructions.filterMap (dynamicSite? method)
      instructions, handlers }

def unitNodes (codec : Codec) (h : HierarchyGraph) (u : ClassUnit) : Except Error (List FlowNode) :=
  match codec.decode u.name u.bytes with
  | .error e => .error e
  | .ok d =>
    match d.methods.mapM (methodNode h d) with
    | .ok nodes => .ok nodes
    | .error e => .error (.decode e)

/-- The graph without methods. -/
def empty : FlowGraph :=
  ⟨∅, ∅, ∅, ∅⟩

/-- Notes a call with its callee. -/
def addCaller (callers : Std.TreeMap MethodRef (List CallEdge)) (e : CallEdge) :
    Std.TreeMap MethodRef (List CallEdge) :=
  callers.insert e.callee (callers.getD e.callee [] ++ [e])

/-- The graph with the methods of a unit, or with its failure. -/
def addUnit (g : FlowGraph) (name : String) : Except Error (List FlowNode) → FlowGraph
  | .error e => { g with failures := g.failures.insert name e }
  | .ok nodes =>
    { g with
      nodes := nodes.foldl (fun m n => m.insert n.method n) g.nodes
      byOwner := g.byOwner.insert name (MethodRef.sort (nodes.map FlowNode.method))
      callers := (nodes.flatMap FlowNode.calls).foldl addCaller g.callers }

/-- The call graph of the project layers of a stack. -/
def ofStack (stack : LayerStack) (codec : Codec) (h : HierarchyGraph) : FlowGraph :=
  (stack.unitNames.toList.filterMap stack.unit?).foldl
    (fun g u => g.addUnit u.name (unitNodes codec h u)) empty

def node? (g : FlowGraph) (m : MethodRef) : Option FlowNode :=
  g.nodes[m]?

/-- The node of a method, unless its owner could not be decoded. -/
def flowFor (g : FlowGraph) (m : MethodRef) : Except Error (Option FlowNode) :=
  match g.failures[m.owner]? with
  | some e => .error e.retained
  | none => .ok (g.node? m)

def callersOf (g : FlowGraph) (m : MethodRef) : List CallEdge :=
  g.callers.getD m []

/-- The methods of a unit, in order. -/
def methodsOf (g : FlowGraph) (owner : String) : List FlowNode :=
  (g.byOwner.getD owner []).filterMap g.node?

/-- The dynamic call sites of the project, by caller and offset. -/
def dynamicSites (g : FlowGraph) : List DynamicSite :=
  g.nodes.values.flatMap FlowNode.dynamicSites

/-- The failure of decoding a unit or one of its methods. -/
def failure? (g : FlowGraph) (owner : String) : Option Error :=
  g.failures[owner]?

end FlowGraph

/-- The sizes of a call graph. -/
structure FlowStats where
  methods : Nat
  directEdges : Nat
  overrideEdges : Nat
  unresolvedEdges : Nat
  dynamicSites : Nat
  decodeFailures : Nat
  deriving DecidableEq, Repr

def FlowGraph.stats (g : FlowGraph) : FlowStats :=
  let edges := g.nodes.values.flatMap FlowNode.calls
  { methods := g.nodes.size
    directEdges := edges.countP fun e => e.dispatch == .direct
    overrideEdges := edges.countP fun e => e.dispatch == .override
    unresolvedEdges := edges.countP CallEdge.isDangling
    dynamicSites := g.dynamicSites.length
    decodeFailures := g.failures.size }

/-- The sizes as lines of text. -/
def FlowStats.report (s : FlowStats) : String :=
  "Flow Graph Statistics:\n" ++
    s!"  Methods: {s.methods}\n" ++
    s!"  Call edges: {s.directEdges + s.overrideEdges} " ++
    s!"(override: {s.overrideEdges}, unresolved: {s.unresolvedEdges})\n" ++
    s!"  Dynamic call sites: {s.dynamicSites}\n" ++
    s!"  Decode failures: {s.decodeFailures}\n"

end ClassAtlas
