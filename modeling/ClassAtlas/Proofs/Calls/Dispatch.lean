import ClassAtlas.Proofs.Calls.Nodes
import ClassAtlas.Proofs.Hierarchy.Resolution
import Mathlib.Data.List.Nodup

/-!
Dispatched calls and the overrides that they reach. Edges come from the classes that can receive a
call, and from the method that each of them resolves; a method that no class resolves has none.
-/

namespace ClassAtlas

namespace HierarchyGraph

/-- A type is a class of the graph, no interface. -/
def IsClass (g : HierarchyGraph) (name : String) : Prop :=
  ∃ n, g.node? name = some n ∧ n.isInterface = false

/-- A type of the graph declares a method that a dispatched call can end up in: neither static nor
private nor abstract, and no initialiser. -/
def DeclaresOverridable (g : HierarchyGraph) (type name descriptor : String) : Prop :=
  ∃ n m, g.node? type = some n ∧ n.DeclaresFirst name descriptor m ∧
    m.access.isStatic = false ∧ m.access.isPrivate = false ∧ m.access.isAbstract = false ∧
      m.name ≠ "<init>" ∧ m.name ≠ "<clinit>"

theorem declaresOverridable_iff {g : HierarchyGraph} {type name descriptor : String} :
    g.DeclaresOverridable type name descriptor ↔
      ∃ n m, g.node? type = some n ∧ n.declares? name descriptor = some m ∧
        m.isOverridable = true := by
  simp only [DeclaresOverridable, TypeNode.declares?_eq_some_iff, MethodSig.isOverridable_iff]

end HierarchyGraph

namespace FlowGraph

open HierarchyGraph

/-- A receiver runs the overridable method that its class resolves. -/
theorem override?_eq_some {h : HierarchyGraph} {name descriptor receiver target : String} :
    override? h name descriptor receiver = some target ↔
      h.IsClass receiver ∧ h.resolveMethod receiver name descriptor = some target ∧
        h.DeclaresOverridable target name descriptor := by
  have hclass : h.IsClass receiver ↔ ((h.node? receiver).any fun n => !n.isInterface) = true := by
    simp [IsClass, Option.any_eq_true]
  have hdeclares (found : String) : h.DeclaresOverridable found name descriptor ↔
      (((h.node? found).bind fun n => n.declares? name descriptor).any MethodSig.isOverridable) =
        true := by
    rw [declaresOverridable_iff]
    cases h.node? found <;> simp [Option.any_eq_true]
  rw [hclass, hdeclares]
  unfold override?
  cases hres : h.resolveMethod receiver name descriptor with
  | none => simp
  | some found => grind

/-- Dispatch reaches what some receiver runs, if it is not what the call names. -/
theorem mem_overrides {h : HierarchyGraph} {owner name descriptor target : String}
    {declaring : Option String} {below : Std.TreeSet String}
    (hbelow : h.allChildren owner = .ok below) :
    target ∈ overrides h owner name descriptor declaring ↔
      declaring ≠ some target ∧ ∃ receiver, (receiver = owner ∨ receiver ∈ below) ∧
        override? h name descriptor receiver = some target := by
  unfold overrides
  simp only [hbelow]
  simp [and_comm]

/-- A method has an edge from an instruction at the offset to the callee. -/
def Calls (n : FlowNode) (offset : Nat) (callee : MethodRef) : Prop :=
  ∃ e ∈ n.calls, e.offset = offset ∧ e.callee = callee

/-- The edges from an instruction are those of the call that it makes. -/
theorem calls_iff {h : HierarchyGraph} {d : ClassDecl} {m : MethodDecl} {n : FlowNode}
    {i : Instruction} {call : Invocation} (hn : methodNode h d m = .ok n)
    (hi : i ∈ n.instructions) (hcall : i.invocation? = some call) (callee : MethodRef) :
    Calls n i.offset callee ↔
      ∃ e ∈ callEdges h n.method i.offset call, e.callee = callee := by
  obtain ⟨hnodup, hcalls⟩ := methodNode_calls hn
  have hedges : instructionCalls h n.method i = callEdges h n.method i.offset call := by
    unfold Instruction.invocation? at hcall
    unfold instructionCalls
    grind
  unfold Calls
  rw [hcalls, ← hedges]
  constructor
  · rintro ⟨e, he, heo, hec⟩
    obtain ⟨j, hj, hej⟩ := List.mem_flatMap.mp he
    obtain rfl : j = i := List.inj_on_of_nodup_map hnodup hj hi ((mem_instructionCalls hej).2.symm.trans heo)
    exact ⟨e, hej, hec⟩
  · rintro ⟨e, he, hec⟩
    exact ⟨e, List.mem_flatMap.mpr ⟨i, hi, he⟩, (mem_instructionCalls he).2, hec⟩

/-- The callees of a dispatched call: the method that is named, and the overrides. -/
theorem dispatched_callee {h : HierarchyGraph} {caller : MethodRef} {offset : Nat}
    {call : Invocation} {target : String} (hkind : call.kind.isDispatched = true) :
    (∃ e ∈ callEdges h caller offset call,
        e.callee = ⟨target, call.name, call.descriptor⟩) ↔
      (h.resolveMethod (receiverType call) call.name call.descriptor).getD (receiverType call) =
          target ∨
        target ∈ overrides h (receiverType call) call.name call.descriptor
          (h.resolveMethod (receiverType call) call.name call.descriptor) := by
  unfold callEdges
  simp [hkind]

/-- A dispatched call reaches the overridable method of a subtype exactly if the call names that
method already or some class that can receive the call resolves it. The method of a class is always
reached; that of an interface is missed where no receiving class resolves to it. -/
theorem dispatch_reaches_iff {stack : LayerStack} {codec : Codec} {h : HierarchyGraph}
    {caller : MethodRef} {n : FlowNode} {i : Instruction} {call : Invocation}
    {below : Std.TreeSet String} {subtype : String}
    (hnode : (ofStack stack codec h).node? caller = some n) (hi : i ∈ n.instructions)
    (hcall : i.invocation? = some call) (hkind : call.kind.isDispatched = true)
    (howner : call.owner.startsWith "[" = false) (hbelow : h.allChildren call.owner = .ok below)
    (hsubtype : subtype ∈ below)
    (hdeclares : h.DeclaresOverridable subtype call.name call.descriptor) :
    (Calls n i.offset ⟨subtype, call.name, call.descriptor⟩ ↔
      h.resolveMethod call.owner call.name call.descriptor = some subtype ∨
        ∃ receiver, (receiver = call.owner ∨ receiver ∈ below) ∧ h.IsClass receiver ∧
          h.resolveMethod receiver call.name call.descriptor = some subtype) ∧
    (h.IsClass subtype → Calls n i.offset ⟨subtype, call.name, call.descriptor⟩) := by
  obtain ⟨-, u, d, m, -, -, -, hn⟩ := node?_ofStack hnode
  have hself : h.resolveMethod subtype call.name call.descriptor = some subtype := by
    obtain ⟨node, sig, hnode, hsig, -⟩ := declaresOverridable_iff.mp hdeclares
    exact resolveMethod_of_declares hnode (by rw [TypeNode.declares, hsig]; rfl)
  have htype : receiverType call = call.owner := by
    rw [receiverType, howner]
    rfl
  have hiff : Calls n i.offset ⟨subtype, call.name, call.descriptor⟩ ↔
      h.resolveMethod call.owner call.name call.descriptor = some subtype ∨
        ∃ receiver, (receiver = call.owner ∨ receiver ∈ below) ∧ h.IsClass receiver ∧
          h.resolveMethod receiver call.name call.descriptor = some subtype := by
    rw [calls_iff hn hi hcall, dispatched_callee hkind, htype, mem_overrides hbelow]
    constructor
    · rintro (hdirect | ⟨-, receiver, hmem, hoverride⟩)
      · cases hres : h.resolveMethod call.owner call.name call.descriptor with
        | none =>
          -- an owner that declares the method itself would resolve it
          rw [hres] at hdirect
          obtain rfl : call.owner = subtype := hdirect
          rw [hself] at hres
          cases hres
        | some declaring =>
          rw [hres] at hdirect
          exact .inl (congrArg some hdirect)
      · obtain ⟨hclass, hres, -⟩ := override?_eq_some.mp hoverride
        exact .inr ⟨receiver, hmem, hclass, hres⟩
    · rintro (hdirect | ⟨receiver, hmem, hclass, hres⟩)
      · exact .inl (by rw [hdirect]; rfl)
      · by_cases hdirect : h.resolveMethod call.owner call.name call.descriptor = some subtype
        · exact .inl (by rw [hdirect]; rfl)
        · exact .inr ⟨hdirect, receiver, hmem, override?_eq_some.mpr ⟨hclass, hres, hdeclares⟩⟩
  exact ⟨hiff, fun hclass => hiff.mpr (.inr ⟨subtype, .inr hsubtype, hclass, hself⟩)⟩

end FlowGraph

/-!
A diamond in which the overridable method of an interface is missed: `Leaf` implements `Base` and
`Middle`, `Middle` extends `Base`, both interfaces have a body for `run`, and `Main` calls it on
`Base`. The search for a method among the interfaces of `Leaf` stops at `Base`, which comes first.
-/

namespace Diamond

def method (name : String) (code : Bytes) : MethodDecl where
  access := ⟨0x0001⟩
  name := name
  descriptor := "()V"
  body := some ⟨1, 1, code, [], []⟩
  attributes := []

def type (access : UInt16) (name : String) (interfaces : List String)
    (methods : List MethodDecl) : ClassDecl where
  minor := 0
  major := 52
  access := ⟨access⟩
  name := name
  superName := none
  interfaces := interfaces
  fields := []
  methods := methods
  attributes := []
  pool := ⟨#[.unusable, .utf8 "Base", .classRef 1, .utf8 "run", .utf8 "()V", .nameAndType 3 4,
    .interfaceMethodRef 2 5], ∅⟩

def base : ClassDecl := type 0x0600 "Base" [] [method "run" [0xB1]]

def middle : ClassDecl := type 0x0600 "Middle" ["Base"] [method "run" [0xB1]]

def leaf : ClassDecl := type 0x0000 "Leaf" ["Base", "Middle"] []

def main : ClassDecl := type 0x0000 "Main" [] [method "main" [0x2A, 0xB9, 0, 6, 1, 0, 0xB1]]

def types : List ClassDecl := [base, leaf, main, middle]

def codec : Codec where
  decode name _ :=
    match types.find? fun d => d.name == name with
    | some d => .ok d
    | none => .error (.unsupported name)
  encode _ _ _ := .ok []

def stack : LayerStack where
  project := [⟨"app", .primary, .ofList (types.map fun d => (d.name, [])), ∅, ∅⟩]
  runtime := .empty "runtime" .runtime

def hierarchy : HierarchyGraph := .ofStack stack codec

def call : Invocation := ⟨.interface, "Base", "run", "()V", true⟩

theorem nodes : hierarchy.nodes.toList = types.map fun d => (d.name, .ofDecl d .primary) := by
  decide +kernel

theorem node?_of_mem {d : ClassDecl} (hd : d ∈ types) :
    hierarchy.node? d.name = some (.ofDecl d .primary) := by
  rw [HierarchyGraph.node?_eq_some_iff, nodes]
  exact List.mem_map_of_mem hd

theorem isClass {name : String} (h : hierarchy.IsClass name) : name = "Leaf" ∨ name = "Main" := by
  obtain ⟨n, hnode, hclass⟩ := h
  rw [HierarchyGraph.node?_eq_some_iff, nodes] at hnode
  obtain ⟨d, hd, heq⟩ := List.mem_map.mp hnode
  cases heq
  simp only [types, List.mem_cons, List.not_mem_nil, or_false] at hd
  rcases hd with rfl | rfl | rfl | rfl
  · cases hclass
  · exact .inl rfl
  · exact .inr rfl
  · cases hclass

theorem resolve_base : hierarchy.resolveMethod "Base" "run" "()V" = some "Base" :=
  HierarchyGraph.resolveMethod_of_declares (node?_of_mem (d := base) (by simp [types])) (by decide)

theorem chain_of_mem {d : ClassDecl} (hd : d ∈ types) :
    hierarchy.superclassChain d.name = [d.name] := by
  have hnode : hierarchy.nodes[d.name]? = some (.ofDecl d .primary) := node?_of_mem hd
  have hsuper : ∀ d ∈ types, d.superName = none := by decide
  rw [HierarchyGraph.superclassChain, Reach.path_eq]
  simp [hnode, TypeNode.ofDecl, hsuper d hd]

theorem resolve_leaf : hierarchy.resolveMethod "Leaf" "run" "()V" = some "Base" := by
  have hleaf : hierarchy.node? "Leaf" = some (.ofDecl leaf .primary) :=
    node?_of_mem (d := leaf) (by simp [types])
  have hbase : hierarchy.nodes["Base"]? = some (.ofDecl base .primary) :=
    node?_of_mem (d := base) (by simp [types])
  have hchain : hierarchy.superclassChain "Leaf" = ["Leaf"] :=
    chain_of_mem (d := leaf) (by simp [types])
  have hdeclares : (TypeNode.ofDecl leaf .primary).declares "run" "()V" = false ∧
      (TypeNode.ofDecl base .primary).declares "run" "()V" = true := by decide
  have hinterfaces : (TypeNode.ofDecl leaf .primary).interfaces = ["Base", "Middle"] := rfl
  simp [HierarchyGraph.resolveMethod, hchain, hleaf, hbase, hdeclares, hinterfaces,
    Reach.nearest?_cons]

theorem resolve_main : hierarchy.resolveMethod "Main" "run" "()V" = none := by
  have hmain : hierarchy.node? "Main" = some (.ofDecl main .primary) :=
    node?_of_mem (d := main) (by simp [types])
  have hchain : hierarchy.superclassChain "Main" = ["Main"] :=
    chain_of_mem (d := main) (by simp [types])
  have hdeclares : (TypeNode.ofDecl main .primary).declares "run" "()V" = false := by decide
  have hinterfaces : (TypeNode.ofDecl main .primary).interfaces = [] := rfl
  simp [HierarchyGraph.resolveMethod, hchain, hmain, hdeclares, hinterfaces, Reach.nearest?]

theorem middle_below : "Middle" ∈ Reach.reach hierarchy.children Std.TreeSet.toList "Base" := by
  have hbase : hierarchy.children["Base"]?.map Std.TreeSet.toList = some ["Leaf", "Middle"] := by
    decide +kernel
  have hleaf : hierarchy.children["Leaf"]?.map Std.TreeSet.toList = none := by
    decide +kernel
  have hmiddle : hierarchy.children["Middle"]?.map Std.TreeSet.toList = some ["Leaf"] := by
    decide +kernel
  simp [Reach.reach, hbase, hleaf, hmiddle, Reach.spread_cons, Reach.spread]

theorem middle_missed :
    ∃ n below, (FlowGraph.ofStack stack codec hierarchy).node? ⟨"Main", "main", "()V"⟩ = some n ∧
      ⟨1, 0xB9, 5, false, .invoke call⟩ ∈ n.instructions ∧
      hierarchy.allChildren "Base" = .ok below ∧ "Middle" ∈ below ∧
      hierarchy.DeclaresOverridable "Middle" "run" "()V" ∧
      ¬ FlowGraph.Calls n 1 ⟨"Middle", "run", "()V"⟩ := by
  have hmain : ((FlowGraph.ofStack stack codec hierarchy).node? ⟨"Main", "main", "()V"⟩).map
      FlowNode.instructions = some [⟨0, 0x2A, 1, false, .slot 0⟩,
        ⟨1, 0xB9, 5, false, .invoke call⟩, ⟨6, 0xB1, 1, false, .none⟩] := by
    decide +kernel
  obtain ⟨n, hn, hinstructions⟩ := Option.map_eq_some_iff.mp hmain
  have hi : ⟨1, 0xB9, 5, false, .invoke call⟩ ∈ n.instructions := by simp [hinstructions]
  have hfailure : hierarchy.failure? "Base" = none := by
    have : (hierarchy.failure? "Base").isNone = true := by decide +kernel
    simpa using this
  have hbelow : hierarchy.allChildren "Base" =
      .ok (Reach.reach hierarchy.children Std.TreeSet.toList "Base") := by
    rw [HierarchyGraph.allChildren, HierarchyGraph.check, hfailure]
    rfl
  have hdeclares : hierarchy.DeclaresOverridable "Middle" "run" "()V" :=
    HierarchyGraph.declaresOverridable_iff.mpr
      ⟨_, _, node?_of_mem (d := middle) (by simp [types]), rfl, by decide⟩
  obtain ⟨hiff, -⟩ := FlowGraph.dispatch_reaches_iff hn hi rfl (by decide) (by decide +kernel)
    hbelow middle_below hdeclares
  refine ⟨n, _, hn, hi, hbelow, middle_below, hdeclares, fun hcalls => ?_⟩
  rcases hiff.mp hcalls with hdirect | ⟨receiver, -, hclass, hres⟩
  · exact absurd (resolve_base.symm.trans hdirect) (by decide)
  · rcases isClass hclass with rfl | rfl
    · exact absurd (resolve_leaf.symm.trans hres) (by decide)
    · exact absurd (resolve_main.symm.trans hres) (by decide)

end Diamond

end ClassAtlas
