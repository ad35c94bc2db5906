import ClassAtlas.Proofs.Calls.Dispatch
import ClassAtlas.Proofs.Hierarchy.Reachability

/-!
The edges of one call. There is one for the method that the call names, and for a dispatched call one
for every further method that a receiving class runs, in order. Receivers that inherit the same method
share its edge, and none of them adds an edge to the method that is named already.
-/

namespace ClassAtlas

namespace HierarchyGraph

/-- A type can receive a call on a type: it is that type, or one of its subtypes if they are known. -/
def Receives (g : HierarchyGraph) (owner receiver : String) : Prop :=
  receiver = owner ∨ ∃ below, g.allChildren owner = .ok below ∧ receiver ∈ below

/-- A class that receives a call on a type runs the overridable method of another type. -/
def Runs (g : HierarchyGraph) (owner name descriptor receiver target : String) : Prop :=
  g.Receives owner receiver ∧ g.IsClass receiver ∧
    g.resolveMethod receiver name descriptor = some target ∧
      g.DeclaresOverridable target name descriptor

end HierarchyGraph

namespace FlowGraph

variable {h : HierarchyGraph} {owner name descriptor target : String}

theorem mem_overrides_iff {declaring : Option String} :
    target ∈ overrides h owner name descriptor declaring ↔
      declaring ≠ some target ∧ ∃ receiver, h.Runs owner name descriptor receiver target := by
  have hruns (receiver : String) : h.Runs owner name descriptor receiver target ↔
      h.Receives owner receiver ∧ override? h name descriptor receiver = some target := by
    rw [HierarchyGraph.Runs, override?_eq_some]
  simp only [hruns, HierarchyGraph.Receives]
  cases hbelow : h.allChildren owner with
  | ok below =>
    rw [mem_overrides hbelow]
    simp
  | error e =>
    unfold overrides
    simp [hbelow, and_comm]

theorem overrides_increasing (h : HierarchyGraph) (owner name descriptor : String)
    (declaring : Option String) :
    (overrides h owner name descriptor declaring).Pairwise (· < ·) := by
  have hordered : (overrides h owner name descriptor declaring).Pairwise
      fun a b => compare a b = .lt := Std.TreeSet.ordered_toList
  exact hordered.imp fun hlt => compareOfLessAndEq_eq_lt.mp hlt

/-- The type whose method a call names, if it is found. -/
def named? (h : HierarchyGraph) (call : Invocation) : Option String :=
  h.resolveMethod (receiverType call) call.name call.descriptor

/-- The method of a type that a call can reach. -/
def methodOf (call : Invocation) (type : String) : MethodRef :=
  ⟨type, call.name, call.descriptor⟩

/-- The edge of a call to the method that it names. -/
def directEdge (h : HierarchyGraph) (caller : MethodRef) (offset : Nat) (call : Invocation) :
    CallEdge :=
  ⟨caller, methodOf call ((named? h call).getD (receiverType call)), call.kind, .direct, offset,
    (named? h call).isSome⟩

/-- The edge of a call to an override. -/
def overrideEdge (caller : MethodRef) (offset : Nat) (call : Invocation) (target : String) :
    CallEdge :=
  ⟨caller, methodOf call target, call.kind, .override, offset, true⟩

/-- The types whose methods a call reaches as overrides. -/
def fanOut (h : HierarchyGraph) (call : Invocation) : List String :=
  if call.kind.isDispatched then
    overrides h (receiverType call) call.name call.descriptor (named? h call)
  else []

theorem callEdges_eq (h : HierarchyGraph) (caller : MethodRef) (offset : Nat) (call : Invocation) :
    callEdges h caller offset call = directEdge h caller offset call ::
      (fanOut h call).map (overrideEdge caller offset call) := by
  unfold callEdges fanOut
  cases call.kind.isDispatched <;> rfl

theorem mem_fanOut {call : Invocation} : target ∈ fanOut h call ↔
    call.kind.isDispatched = true ∧ named? h call ≠ some target ∧
      ∃ receiver, h.Runs (receiverType call) call.name call.descriptor receiver target := by
  unfold fanOut
  split
  · rename_i hkind
    rw [mem_overrides_iff]
    simp [hkind]
  · rename_i hkind
    simp [hkind]

theorem fanOut_increasing (h : HierarchyGraph) (call : Invocation) :
    (fanOut h call).Pairwise (· < ·) := by
  unfold fanOut
  split
  · exact overrides_increasing h _ _ _ _
  · exact .nil

/-- What a receiver runs is declared by the type it belongs to, so that type means itself. -/
theorem resolveMethod_of_runs {receiver : String}
    (hruns : h.Runs owner name descriptor receiver target) :
    h.resolveMethod target name descriptor = some target := by
  obtain ⟨-, -, -, hoverridable⟩ := hruns
  obtain ⟨n, m, hn, hm, -⟩ := HierarchyGraph.declaresOverridable_iff.mp hoverridable
  have hdeclares : n.declares name descriptor = true := by simp [TypeNode.declares, hm]
  exact HierarchyGraph.resolveMethod_of_declares hn hdeclares

/-- The method that is named is none of the overrides, also where it is not found. -/
theorem named_not_mem_fanOut {call : Invocation} :
    (named? h call).getD (receiverType call) ∉ fanOut h call := by
  intro hmem
  obtain ⟨-, hother, receiver, hruns⟩ := mem_fanOut.mp hmem
  cases hnamed : named? h call with
  | some found =>
    rw [hnamed] at hother
    exact hother rfl
  | none =>
    -- the owner would declare the method itself
    rw [hnamed] at hruns
    have hself : named? h call = some (receiverType call) := resolveMethod_of_runs hruns
    rw [hnamed] at hself
    cases hself

theorem callees_nodup (h : HierarchyGraph) (caller : MethodRef) (offset : Nat)
    (call : Invocation) : ((callEdges h caller offset call).map CallEdge.callee).Nodup := by
  have hinjective : Function.Injective (methodOf call) := by
    intro a b hab
    exact congrArg MethodRef.owner hab
  have hdistinct : (fanOut h call).Nodup := by
    apply (fanOut_increasing h call).imp
    rintro a _ hlt rfl
    exact String.lt_irrefl a hlt
  have hnodup : ((named? h call).getD (receiverType call) :: fanOut h call).Nodup :=
    List.nodup_cons.mpr ⟨named_not_mem_fanOut, hdistinct⟩
  have hcallees : (callEdges h caller offset call).map CallEdge.callee =
      ((named? h call).getD (receiverType call) :: fanOut h call).map (methodOf call) := by
    rw [callEdges_eq, List.map_cons, List.map_cons, List.map_map]
    rfl
  rw [hcallees]
  exact hnodup.map hinjective

theorem direct_callEdges (h : HierarchyGraph) (caller : MethodRef) (offset : Nat)
    (call : Invocation) : (callEdges h caller offset call).filter (·.dispatch == .direct) =
      [directEdge h caller offset call] := by
  rw [callEdges_eq, List.filter_cons_of_pos (by rfl), List.filter_map]
  simp [Function.comp_def, overrideEdge]

theorem override_callEdges (h : HierarchyGraph) (caller : MethodRef) (offset : Nat)
    (call : Invocation) : (callEdges h caller offset call).filter (·.dispatch == .override) =
      (fanOut h call).map (overrideEdge caller offset call) := by
  rw [callEdges_eq, List.filter_cons_of_neg (by simp [directEdge]), List.filter_map]
  simp [Function.comp_def, overrideEdge]

/-- What a receiver runs is called exactly once. -/
theorem count_callEdges {caller : MethodRef} {offset : Nat} {call : Invocation} {receiver : String}
    (hkind : call.kind.isDispatched = true)
    (hruns : h.Runs (receiverType call) call.name call.descriptor receiver target) :
    ((callEdges h caller offset call).map CallEdge.callee).count (methodOf call target) = 1 := by
  apply List.count_eq_one_of_mem (callees_nodup h caller offset call)
  rw [callEdges_eq, List.map_cons, List.map_map, List.mem_cons]
  by_cases hnamed : named? h call = some target
  · exact .inl (by rw [directEdge, hnamed]; rfl)
  · refine .inr (List.mem_map.mpr ⟨target, mem_fanOut.mpr ⟨hkind, hnamed, receiver, hruns⟩, rfl⟩)

/-- The edges of a method that start at a call are those of this call. -/
theorem calls_at {d : ClassDecl} {m : MethodDecl} {n : FlowNode} {i : Instruction}
    {call : Invocation} (hn : methodNode h d m = .ok n) (hi : i ∈ n.instructions)
    (hcall : i.invocation? = some call) :
    n.calls.filter (·.offset == i.offset) = callEdges h n.method i.offset call := by
  obtain ⟨hnodup, hcalls⟩ := methodNode_calls hn
  have hown : instructionCalls h n.method i = callEdges h n.method i.offset call := by
    unfold Instruction.invocation? at hcall
    unfold instructionCalls
    grind
  obtain ⟨before, after, hsplit⟩ := List.append_of_mem hi
  rw [hsplit, List.map_append, List.map_cons, List.nodup_middle, ← List.map_append] at hnodup
  have hothers {others : List Instruction} (hsub : ∀ j ∈ others, j ∈ before ++ after) :
      others.flatMap (fun j => (instructionCalls h n.method j).filter (·.offset == i.offset)) =
        [] := by
    apply List.flatMap_eq_nil_iff.mpr
    intro j hj
    apply List.filter_eq_nil_iff.mpr
    intro e he heq
    have hsame : j.offset = i.offset := (mem_instructionCalls he).2.symm.trans (by simpa using heq)
    exact (List.nodup_cons.mp hnodup).1 (hsame ▸ List.mem_map_of_mem (hsub j hj))
  have hkept : (callEdges h n.method i.offset call).filter (·.offset == i.offset) =
      callEdges h n.method i.offset call := by
    apply List.filter_eq_self.mpr
    intro e he
    rw [← hown] at he
    simp [(mem_instructionCalls he).2]
  rw [hcalls, hsplit, List.filter_flatMap, List.flatMap_append, List.flatMap_cons, hown, hkept,
    hothers fun j hj => List.mem_append_left _ hj, hothers fun j hj => List.mem_append_right _ hj,
    List.nil_append, List.append_nil]

theorem isDispatched_iff {kind : InvokeKind} :
    kind.isDispatched = true ↔ kind = .virtual ∨ kind = .interface := by
  cases kind <;> simp [InvokeKind.isDispatched]

/-- A call has one direct edge, to the method that it names, and that edge is resolved if the method
is found; a call on an array type names a method of the root of all classes. A dispatched call has
one edge to each method that a receiving class runs, and its override edges lead to nothing else, in
the order of the types. No two edges lead to the same method, and a call that is not dispatched has
the direct edge only. -/
theorem calls_fanOut {stack : LayerStack} {codec : Codec} {h : HierarchyGraph} {caller : MethodRef}
    {n : FlowNode} {i : Instruction} {call : Invocation}
    (hnode : (ofStack stack codec h).node? caller = some n) (hi : i ∈ n.instructions)
    (hcall : i.invocation? = some call) :
    let owner := if call.owner.startsWith "[" then "java/lang/Object" else call.owner
    let found := h.resolveMethod owner call.name call.descriptor
    let edges := n.calls.filter (·.offset == i.offset)
    let method (type : String) : MethodRef := ⟨type, call.name, call.descriptor⟩
    (∃ e, edges.filter (·.dispatch == .direct) = [e] ∧
      (e.resolved = true ↔ ∃ type, found = some type) ∧ e.callee = method (found.getD owner)) ∧
    (edges.map CallEdge.callee).Nodup ∧
    (call.kind = .virtual ∨ call.kind = .interface → ∀ receiver target,
      h.Runs owner call.name call.descriptor receiver target →
        (edges.map CallEdge.callee).count (method target) = 1) ∧
    (∀ e ∈ edges, e.dispatch = .override → e.resolved = true ∧
      (call.kind = .virtual ∨ call.kind = .interface) ∧ ∃ receiver target,
        h.Runs owner call.name call.descriptor receiver target ∧ e.callee = method target) ∧
    ((edges.filter (·.dispatch == .override)).map (·.callee.owner)).Pairwise (· < ·) ∧
    (call.kind ≠ .virtual → call.kind ≠ .interface →
      ∃ e, edges = [e] ∧ e.dispatch = .direct) := by
  intro owner found edges method
  obtain ⟨-, u, d, m, -, -, -, hn⟩ := node?_ofStack hnode
  have hedges : edges = callEdges h n.method i.offset call := calls_at hn hi hcall
  rw [hedges]
  refine ⟨?direct, callees_nodup h _ _ call, ?reached, ?sound, ?ordered, ?undispatched⟩
  case direct =>
    refine ⟨_, direct_callEdges h _ _ call, ?_, rfl⟩
    rw [← Option.isSome_iff_exists]
    rfl
  case reached =>
    intro hkind receiver target hruns
    exact count_callEdges (isDispatched_iff.mpr hkind) hruns
  case sound =>
    intro e he hdispatch
    have hoverride : e ∈ (fanOut h call).map (overrideEdge n.method i.offset call) := by
      rw [← override_callEdges]
      exact List.mem_filter.mpr ⟨he, by simp [hdispatch]⟩
    obtain ⟨target, htarget, rfl⟩ := List.mem_map.mp hoverride
    obtain ⟨hkind, -, receiver, hruns⟩ := mem_fanOut.mp htarget
    exact ⟨rfl, isDispatched_iff.mp hkind, receiver, target, hruns, rfl⟩
  case ordered =>
    have howners : ((fanOut h call).map (overrideEdge n.method i.offset call)).map
        (·.callee.owner) = fanOut h call := by
      simp [Function.comp_def, overrideEdge, methodOf]
    rw [override_callEdges, howners]
    exact fanOut_increasing h call
  case undispatched =>
    intro hvirtual hinterface
    have hkind : call.kind.isDispatched = false := by
      rw [← Bool.not_eq_true, isDispatched_iff]
      exact not_or.mpr ⟨hvirtual, hinterface⟩
    refine ⟨directEdge h n.method i.offset call, ?_, rfl⟩
    rw [callEdges_eq, fanOut, hkind]
    rfl

end FlowGraph

/-!
An interface whose method is inherited from a superclass: `Impl` implements `Task` by the method of
`Base`, its subclass `Fast` overrides it, and `Main` calls it on `Task`. Then `Main` copies an array,
by a method that `Fast` overrides as well.
-/

namespace Inherited

def cloneMethod : MethodDecl :=
  { Diamond.method "clone" [0x2A, 0xB0] with descriptor := "()Ljava/lang/Object;" }

def type (access : UInt16) (name : String) (superName : Option String) (interfaces : List String)
    (methods : List MethodDecl) : ClassDecl :=
  { Diamond.type access name interfaces methods with
    superName := superName
    pool := ⟨#[.unusable, .utf8 "Task", .classRef 1, .utf8 "run", .utf8 "()V", .nameAndType 3 4,
      .interfaceMethodRef 2 5, .utf8 "[I", .classRef 7, .utf8 "clone",
      .utf8 "()Ljava/lang/Object;", .nameAndType 9 10, .methodRef 8 11], ∅⟩ }

def base : ClassDecl :=
  type 0 "Base" (some "java/lang/Object") [] [Diamond.method "run" [0xB1]]

def fast : ClassDecl :=
  type 0 "Fast" (some "Impl") [] [Diamond.method "run" [0xB1], cloneMethod]

def impl : ClassDecl := type 0 "Impl" (some "Base") ["Task"] []

def main : ClassDecl :=
  type 0 "Main" none [] [Diamond.method "main"
    [0x2A, 0xB9, 0, 6, 1, 0, 0x2A, 0xB6, 0, 12, 0xB1]]

def task : ClassDecl :=
  type 0x0600 "Task" none [] [{ Diamond.method "run" [] with access := ⟨0x0401⟩, body := none }]

def object : ClassDecl := type 0 "java/lang/Object" none [] [cloneMethod]

def types : List ClassDecl := [base, fast, impl, main, task, object]

def codec : Codec where
  decode name _ :=
    match types.find? fun d => d.name == name with
    | some d => .ok d
    | none => .error (.unsupported name)
  encode _ _ _ := .ok []

def stack : LayerStack where
  project := [⟨"app", .primary, .ofList (types.map fun d => (d.name, [])), ∅, ∅⟩]
  runtime := .empty "runtime" .runtime

def hierarchy : HierarchyGraph := .ofStack stack codec

def runCall : Invocation := ⟨.interface, "Task", "run", "()V", true⟩

def cloneCall : Invocation := ⟨.virtual, "[I", "clone", "()Ljava/lang/Object;", false⟩

theorem nodes : hierarchy.nodes.toList = types.map fun d => (d.name, .ofDecl d .primary) := by
  decide +kernel

theorem node?_of_mem {d : ClassDecl} (hd : d ∈ types) :
    hierarchy.node? d.name = some (.ofDecl d .primary) := by
  rw [HierarchyGraph.node?_eq_some_iff, nodes]
  exact List.mem_map_of_mem hd

theorem inherits_of_mem {d : ClassDecl} {parent : String} (hd : d ∈ types)
    (hparent : parent ∈ d.parents) : hierarchy.Inherits d.name parent :=
  ⟨_, node?_of_mem hd, hparent⟩

theorem receives {owner receiver : String} (hne : receiver ≠ owner)
    (hdecoded : (hierarchy.failure? owner).isNone = true)
    (hbelow : Relation.TransGen hierarchy.Inherits receiver owner) :
    hierarchy.Receives owner receiver := by
  obtain ⟨below, hchildren, hmem⟩ :=
    HierarchyGraph.allChildren_of_decoded (Option.isNone_iff_eq_none.mp hdecoded)
  exact .inr ⟨below, hchildren, (hmem receiver).mpr ⟨hne, hbelow⟩⟩

/-- Calls on the interface run the method that the implementation inherits. -/
theorem impl_runs_base : hierarchy.Runs "Task" "run" "()V" "Impl" "Base" := by
  have himpl : impl ∈ types := by simp [types]
  have hbase : base ∈ types := by simp [types]
  have hinherits : hierarchy.Inherits "Impl" "Task" := inherits_of_mem himpl (by decide)
  have hresolves : hierarchy.resolveMethod "Impl" "run" "()V" = some "Base" := by decide +kernel
  have hdeclares : hierarchy.DeclaresOverridable "Base" "run" "()V" :=
    HierarchyGraph.declaresOverridable_iff.mpr ⟨_, _, node?_of_mem hbase, rfl, by decide⟩
  exact ⟨receives (by decide) (by decide +kernel) (.single hinherits),
    ⟨_, node?_of_mem himpl, by decide⟩, hresolves, hdeclares⟩

/-- Calls on the root run the method that a class far below it declares. -/
theorem fast_runs_itself :
    hierarchy.Runs "java/lang/Object" "clone" "()Ljava/lang/Object;" "Fast" "Fast" := by
  have hfast : fast ∈ types := by simp [types]
  have hinherits : Relation.TransGen hierarchy.Inherits "Fast" "java/lang/Object" := by
    have hfirst : hierarchy.Inherits "Fast" "Impl" := inherits_of_mem hfast (by decide)
    have hsecond : hierarchy.Inherits "Impl" "Base" :=
      inherits_of_mem (d := impl) (by simp [types]) (by decide)
    have hthird : hierarchy.Inherits "Base" "java/lang/Object" :=
      inherits_of_mem (d := base) (by simp [types]) (by decide)
    exact .tail (.tail (.single hfirst) hsecond) hthird
  have hresolves : hierarchy.resolveMethod "Fast" "clone" "()Ljava/lang/Object;" = some "Fast" := by
    decide +kernel
  have hdeclares : hierarchy.DeclaresOverridable "Fast" "clone" "()Ljava/lang/Object;" :=
    HierarchyGraph.declaresOverridable_iff.mpr ⟨_, _, node?_of_mem hfast, rfl, by decide⟩
  exact ⟨receives (by decide) (by decide +kernel) hinherits, ⟨_, node?_of_mem hfast, by decide⟩,
    hresolves, hdeclares⟩

theorem main_instructions :
    ((FlowGraph.ofStack stack codec hierarchy).node? ⟨"Main", "main", "()V"⟩).map
      FlowNode.instructions = some [⟨0, 0x2A, 1, false, .slot 0⟩,
        ⟨1, 0xB9, 5, false, .invoke runCall⟩, ⟨6, 0x2A, 1, false, .slot 0⟩,
        ⟨7, 0xB6, 3, false, .invoke cloneCall⟩, ⟨10, 0xB1, 1, false, .none⟩] := by
  decide +kernel

/-- The call on the interface has one edge to the inherited method. The copy of the array has its
direct edge to the root, and one edge to the class that copies in a way of its own. -/
theorem receivers_called_once : ∃ n,
    (FlowGraph.ofStack stack codec hierarchy).node? ⟨"Main", "main", "()V"⟩ = some n ∧
    (⟨1, 0xB9, 5, false, .invoke runCall⟩ ∈ n.instructions ∧
      hierarchy.Runs "Task" "run" "()V" "Impl" "Base" ∧
      ((n.calls.filter (·.offset == 1)).map CallEdge.callee).count ⟨"Base", "run", "()V"⟩ = 1 ∧
      ∃ e, (n.calls.filter (·.offset == 1)).filter (·.dispatch == .direct) = [e] ∧
        e.resolved = true ∧ e.callee = ⟨"Task", "run", "()V"⟩) ∧
    ⟨7, 0xB6, 3, false, .invoke cloneCall⟩ ∈ n.instructions ∧
      hierarchy.Runs "java/lang/Object" "clone" "()Ljava/lang/Object;" "Fast" "Fast" ∧
      ((n.calls.filter (·.offset == 7)).map CallEdge.callee).count
        ⟨"Fast", "clone", "()Ljava/lang/Object;"⟩ = 1 ∧
      ∃ e, (n.calls.filter (·.offset == 7)).filter (·.dispatch == .direct) = [e] ∧
        e.resolved = true ∧ e.callee = ⟨"java/lang/Object", "clone", "()Ljava/lang/Object;"⟩ := by
  obtain ⟨n, hn, hinstructions⟩ := Option.map_eq_some_iff.mp main_instructions
  have hrun : ⟨1, 0xB9, 5, false, .invoke runCall⟩ ∈ n.instructions := by simp [hinstructions]
  have hclone : ⟨7, 0xB6, 3, false, .invoke cloneCall⟩ ∈ n.instructions := by simp [hinstructions]
  have hnamed : runCall.owner.startsWith "[" = false := by decide +kernel
  have harray : cloneCall.owner.startsWith "[" = true := by decide +kernel
  have htask : hierarchy.resolveMethod "Task" runCall.name runCall.descriptor = some "Task" := by
    decide +kernel
  have hroot : hierarchy.resolveMethod "java/lang/Object" cloneCall.name cloneCall.descriptor =
      some "java/lang/Object" := by
    decide +kernel
  refine ⟨n, hn, ⟨hrun, impl_runs_base, ?_⟩, hclone, fast_runs_itself, ?_⟩
  · obtain ⟨⟨e, hdirect, hresolved, hcallee⟩, -, honce, -⟩ := FlowGraph.calls_fanOut hn hrun rfl
    simp only [hnamed, Bool.false_eq_true, if_false] at hresolved hcallee honce
    have hfound : hierarchy.resolveMethod runCall.owner runCall.name runCall.descriptor =
        some "Task" := htask
    rw [hfound] at hresolved hcallee
    exact ⟨honce (.inr rfl) "Impl" "Base" impl_runs_base, e, hdirect,
      hresolved.mpr ⟨"Task", rfl⟩, hcallee⟩
  · obtain ⟨⟨e, hdirect, hresolved, hcallee⟩, -, honce, -⟩ := FlowGraph.calls_fanOut hn hclone rfl
    simp only [harray, if_true] at hresolved hcallee honce
    rw [hroot] at hresolved hcallee
    exact ⟨honce (.inl rfl) "Fast" "Fast" fast_runs_itself, e, hdirect,
      hresolved.mpr ⟨"java/lang/Object", rfl⟩, hcallee⟩

end Inherited

end ClassAtlas
