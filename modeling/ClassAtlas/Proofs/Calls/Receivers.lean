import ClassAtlas.Proofs.Calls.FanOut
import ClassAtlas.Proofs.Hierarchy.Methods

/-!
Who receives a call. The classes that a dispatched call is taken to arrive at are the named type and
its subtypes, so what its override edges lead to is run by one of them. A call on an array type is
the exception: its receivers are those of the root, which has every class below it, although no type
is below the array type.
-/

namespace ClassAtlas

open Relation (ReflTransGen TransGen)

namespace HierarchyGraph

variable {stack : LayerStack} {codec : Codec} {owner receiver : String}

/-- A type is of the named type: it is that type itself, or has it among all its supertypes. -/
def AtOrBelow (g : HierarchyGraph) (owner receiver : String) : Prop :=
  receiver = owner ∨ ∃ above, g.allParents receiver = .ok above ∧ owner ∈ above

theorem failure?_of_checked {α : Type} {g : HierarchyGraph} {name : String}
    {rest : Except Error α} {a : α} (h : (g.check name >>= fun _ => rest) = .ok a) :
    g.failure? name = none := by
  rw [check_bind] at h
  cases hf : g.failure? name with
  | none => rfl
  | some e =>
    rw [hf] at h
    cases h

/-- Only what inherits from a type is of it. -/
theorem AtOrBelow.inherits {g : HierarchyGraph} (h : g.AtOrBelow owner receiver) :
    ReflTransGen g.Inherits receiver owner := by
  rcases h with rfl | ⟨above, habove, howner⟩
  · exact .refl
  · obtain ⟨above', habove', hmem⟩ := allParents_of_decoded (failure?_of_checked habove)
    rw [habove] at habove'
    cases habove'
    exact ((hmem owner).mp howner).2.to_reflTransGen

/-- A type that is not in the graph and that no type declares as a parent has none of its kind. -/
theorem AtOrBelow.not_contains {g : HierarchyGraph} (hmissing : g.contains owner = false)
    (hparent : ∀ child, ¬ g.Inherits child owner) (h : g.AtOrBelow owner receiver) :
    g.contains receiver = false := by
  rcases h.inherits.cases_tail with rfl | ⟨child, -, hinherits⟩
  · exact hmissing
  · exact absurd hinherits (hparent child)

/-- The classes that receive a call on a type are those of this type, unless its unit has failed. -/
theorem receives_iff (hclass : (ofStack stack codec).IsClass receiver) :
    (ofStack stack codec).Receives owner receiver ↔
      (ofStack stack codec).failure? owner = none ∧
        (ofStack stack codec).AtOrBelow owner receiver := by
  obtain ⟨n, hn, -⟩ := hclass
  have hdecoded : (ofStack stack codec).failure? receiver = none := (ofStack_node? hn).2
  obtain ⟨above, habove, hmem⟩ := allParents_of_decoded hdecoded
  constructor
  · rintro (rfl | ⟨below, hbelow, hreceiver⟩)
    · exact ⟨hdecoded, .inl rfl⟩
    · have howner := failure?_of_checked hbelow
      obtain ⟨below', hbelow', hmem'⟩ := allChildren_of_decoded howner
      rw [hbelow] at hbelow'
      cases hbelow'
      obtain ⟨hne, hinherits⟩ := (hmem' receiver).mp hreceiver
      exact ⟨howner, .inr ⟨above, habove, (hmem owner).mpr ⟨hne.symm, hinherits⟩⟩⟩
  · rintro ⟨howner, rfl | ⟨above', habove', hin⟩⟩
    · exact .inl rfl
    · rw [habove] at habove'
      cases habove'
      obtain ⟨hne, hinherits⟩ := (hmem owner).mp hin
      obtain ⟨below, hbelow, hmem'⟩ := allChildren_of_decoded howner
      exact .inr ⟨below, hbelow, (hmem' receiver).mpr ⟨hne.symm, hinherits⟩⟩

end HierarchyGraph

namespace FlowGraph

variable {h : HierarchyGraph} {call : Invocation} {target : String}

/-- A type that is of the type named in a call runs the method of the target. -/
def Founded (h : HierarchyGraph) (call : Invocation) (target : String) : Prop :=
  ∃ receiver, h.AtOrBelow call.owner receiver ∧
    h.resolveMethod receiver call.name call.descriptor = some target

theorem receiverType_of_array (harray : call.owner.startsWith "[" = true) :
    receiverType call = Name.object := by
  rw [receiverType, harray]
  rfl

theorem receiverType_of_named (harray : call.owner.startsWith "[" = false) :
    receiverType call = call.owner := by
  rw [receiverType, harray]
  rfl

/-- What no type of the graph is of has nothing that it runs. -/
theorem not_founded (hmissing : h.contains call.owner = false)
    (hparent : ∀ child, ¬ h.Inherits child call.owner) : ¬ Founded h call target := by
  rintro ⟨receiver, hbelow, hresolves⟩
  have hcontains := (HierarchyGraph.inherits_of_resolveMethod hresolves).1
  rw [hbelow.not_contains hmissing hparent] at hcontains
  cases hcontains

/-- What a call fans out to, with the receivers told by their supertypes. -/
theorem mem_fanOut_ofStack {stack : LayerStack} {codec : Codec} :
    let g := HierarchyGraph.ofStack stack codec
    let owner := receiverType call
    target ∈ fanOut g call ↔
      (call.kind = .virtual ∨ call.kind = .interface) ∧
        g.resolveMethod owner call.name call.descriptor ≠ some target ∧
        g.failure? owner = none ∧ ∃ receiver, g.AtOrBelow owner receiver ∧ g.IsClass receiver ∧
          g.resolveMethod receiver call.name call.descriptor = some target ∧
          g.DeclaresOverridable target call.name call.descriptor := by
  intro g owner
  rw [mem_fanOut, isDispatched_iff]
  refine and_congr_right fun _ => and_congr_right fun _ => ?_
  constructor
  · rintro ⟨receiver, hreceives, hclass, hruns⟩
    obtain ⟨howner, hbelow⟩ := (HierarchyGraph.receives_iff hclass).mp hreceives
    exact ⟨howner, receiver, hbelow, hclass, hruns⟩
  · rintro ⟨howner, receiver, hbelow, hclass, hruns⟩
    exact ⟨receiver, (HierarchyGraph.receives_iff hclass).mpr ⟨howner, hbelow⟩, hclass, hruns⟩

/-- The override edges of a call lead, in order, to the overridable methods of other types that are
run by a class of the type on which the method is looked up. If that is the type that the call names,
every target is run by a type of it. If the call names an array type, which no type of the graph is
of, no target is, so such a call is right only where it has no override edges. -/
theorem override_edges_exact {stack project : LayerStack} {codec other : Codec} {caller : MethodRef}
    {n : FlowNode} {i : Instruction} {call : Invocation}
    (hnode : (ofStack project other (.ofStack stack codec)).node? caller = some n)
    (hi : i ∈ n.instructions) (hcall : i.invocation? = some call) :
    let g := HierarchyGraph.ofStack stack codec
    let owner := receiverType call
    let edges := n.calls.filter fun e => e.offset == i.offset && e.dispatch == .override
    (∀ target, (∃ e ∈ edges, e.callee = ⟨target, call.name, call.descriptor⟩) ↔
      (call.kind = .virtual ∨ call.kind = .interface) ∧
        g.resolveMethod owner call.name call.descriptor ≠ some target ∧
        g.failure? owner = none ∧ ∃ receiver, g.AtOrBelow owner receiver ∧ g.IsClass receiver ∧
          g.resolveMethod receiver call.name call.descriptor = some target ∧
          g.DeclaresOverridable target call.name call.descriptor) ∧
    (call.owner.startsWith "[" = false → ∀ e ∈ edges, Founded g call e.callee.owner) ∧
    (call.owner.startsWith "[" = true → g.contains call.owner = false →
      (∀ child, ¬ g.Inherits child call.owner) →
        ((∀ e ∈ edges, Founded g call e.callee.owner) ↔ edges = [])) := by
  intro g owner edges
  obtain ⟨-, u, d, m, -, -, -, hn⟩ := node?_ofStack hnode
  have hedges : edges = (fanOut g call).map (overrideEdge n.method i.offset call) := by
    rw [← override_callEdges, ← calls_at hn hi hcall, List.filter_filter]
    simp only [edges, Bool.and_comm]
  have howner {e : CallEdge} (he : e ∈ edges) : e.callee.owner ∈ fanOut g call := by
    rw [hedges] at he
    obtain ⟨target, htarget, rfl⟩ := List.mem_map.mp he
    exact htarget
  refine ⟨fun target => ?_, fun harray e he => ?_, fun _ hmissing hparent => ?_⟩
  · refine Iff.trans ?_ mem_fanOut_ofStack
    constructor
    · rintro ⟨e, he, hcallee⟩
      have htarget := howner he
      rwa [hcallee] at htarget
    · intro htarget
      exact ⟨overrideEdge n.method i.offset call target,
        hedges ▸ List.mem_map_of_mem htarget, rfl⟩
  · obtain ⟨-, -, -, receiver, hbelow, -, hresolves, -⟩ := mem_fanOut_ofStack.mp (howner he)
    rw [receiverType_of_named harray] at hbelow
    exact ⟨receiver, hbelow, hresolves⟩
  · constructor
    · intro hfounded
      exact List.eq_nil_iff_forall_not_mem.mpr fun e he =>
        not_founded hmissing hparent (hfounded e he)
    · intro hnone e he
      rw [hnone] at he
      cases he

end FlowGraph

/-!
A copy of an array: `Main` clones an array of numbers, and `Point`, a class of its own, can be cloned
as well.
-/

namespace Copying

def type (name : String) (superName : Option String) (methods : List MethodDecl) : ClassDecl :=
  { Diamond.type 0 name [] methods with
    superName := superName
    pool := ⟨#[.unusable, .utf8 "[I", .classRef 1, .utf8 "clone", .utf8 "()Ljava/lang/Object;",
      .nameAndType 3 4, .methodRef 2 5], ∅⟩ }

def main : ClassDecl :=
  type "Main" (some Name.object) [Diamond.method "main" [0x2A, 0xB6, 0, 6, 0xB1]]

def point : ClassDecl := type "Point" (some Name.object) [Inherited.cloneMethod]

def object : ClassDecl := type Name.object none []

def types : List ClassDecl := [main, point, object]

def codec : Codec where
  decode name _ :=
    match types.find? fun d => d.name == name with
    | some d => .ok d
    | none => .error (.unsupported name)
  encode _ _ _ := .ok []

def stack : LayerStack where
  project := [⟨"app", .primary, .ofList (types.map fun d => (d.name, [])), ∅, ∅⟩]
  runtime := .empty "runtime" .runtime

def hierarchy : HierarchyGraph := .ofStack stack codec

def call : Invocation := ⟨.virtual, "[I", "clone", "()Ljava/lang/Object;", false⟩

theorem nodes : hierarchy.nodes.toList = types.map fun d => (d.name, .ofDecl d .primary) := by
  decide +kernel

theorem node?_of_mem {d : ClassDecl} (hd : d ∈ types) :
    hierarchy.node? d.name = some (.ofDecl d .primary) := by
  rw [HierarchyGraph.node?_eq_some_iff, nodes]
  exact List.mem_map_of_mem hd

theorem no_array_above (child : String) : ¬ hierarchy.Inherits child "[I" := by
  have hall : ∀ d ∈ types, "[I" ∉ d.parents := by decide
  rintro ⟨n, hn, hin⟩
  rw [HierarchyGraph.node?_eq_some_iff, nodes] at hn
  obtain ⟨d, hd, heq⟩ := List.mem_map.mp hn
  cases heq
  exact hall d hd hin

theorem point_of_object : hierarchy.AtOrBelow Name.object "Point" := by
  have hpoint : hierarchy.node? "Point" = some (.ofDecl point .primary) :=
    node?_of_mem (d := point) (by simp [types])
  obtain ⟨above, habove, hmem⟩ :=
    HierarchyGraph.allParents_of_decoded (HierarchyGraph.ofStack_node? hpoint).2
  have hinherits : hierarchy.Inherits "Point" Name.object := ⟨_, hpoint, by decide⟩
  exact .inr ⟨above, habove, (hmem Name.object).mpr ⟨by decide, .single hinherits⟩⟩

/-- The copy of the array has an override edge to the method of a class that is no array. -/
theorem point_reached : ∃ n,
    (FlowGraph.ofStack stack codec hierarchy).node? ⟨"Main", "main", "()V"⟩ = some n ∧
    ⟨1, 0xB6, 3, false, .invoke call⟩ ∈ n.instructions ∧
    call.owner.startsWith "[" = true ∧ hierarchy.contains "[I" = false ∧
    (∀ child, ¬ hierarchy.Inherits child "[I") ∧
    (∃ e ∈ n.calls.filter fun e => e.offset == 1 && e.dispatch == .override,
      e.callee = ⟨"Point", "clone", "()Ljava/lang/Object;"⟩) ∧
    ¬ ∀ e ∈ n.calls.filter fun e => e.offset == 1 && e.dispatch == .override,
      FlowGraph.Founded hierarchy call e.callee.owner := by
  have hmain : ((FlowGraph.ofStack stack codec hierarchy).node? ⟨"Main", "main", "()V"⟩).map
      FlowNode.instructions = some [⟨0, 0x2A, 1, false, .slot 0⟩,
        ⟨1, 0xB6, 3, false, .invoke call⟩, ⟨4, 0xB1, 1, false, .none⟩] := by
    decide +kernel
  have harray : call.owner.startsWith "[" = true := by decide +kernel
  have hmissing : hierarchy.contains "[I" = false := by decide +kernel
  have hobject : hierarchy.node? Name.object = some (.ofDecl object .primary) :=
    node?_of_mem (d := object) (by simp [types])
  have hpoint : hierarchy.node? "Point" = some (.ofDecl point .primary) :=
    node?_of_mem (d := point) (by simp [types])
  have hother : hierarchy.resolveMethod Name.object call.name call.descriptor ≠ some "Point" := by
    intro hfound
    rcases (HierarchyGraph.inherits_of_resolveMethod hfound).2.2.cases_head with
      heq | ⟨parent, ⟨n, hn, hin⟩, -⟩
    · exact absurd heq (by decide)
    · rw [hobject] at hn
      cases hn
      exact absurd hin (by simp [object, type, TypeNode.parents, TypeNode.ofDecl, Diamond.type])
  have hown : hierarchy.resolveMethod "Point" call.name call.descriptor = some "Point" := by
    decide +kernel
  obtain ⟨n, hn, hinstructions⟩ := Option.map_eq_some_iff.mp hmain
  have hi : ⟨1, 0xB6, 3, false, .invoke call⟩ ∈ n.instructions := by simp [hinstructions]
  obtain ⟨htargets, -, hexact⟩ := FlowGraph.override_edges_exact hn hi rfl
  have hedge : ∃ e ∈ n.calls.filter fun e => e.offset == 1 && e.dispatch == .override,
      e.callee = ⟨"Point", "clone", "()Ljava/lang/Object;"⟩ := by
    refine (htargets "Point").mpr ⟨.inl rfl, ?_⟩
    rw [FlowGraph.receiverType_of_array harray]
    exact ⟨hother, (HierarchyGraph.ofStack_node? hobject).2, "Point",
      point_of_object, ⟨_, hpoint, by decide⟩, hown,
      HierarchyGraph.declaresOverridable_iff.mpr ⟨_, _, hpoint, rfl, by decide⟩⟩
  refine ⟨n, hn, hi, harray, hmissing, no_array_above, hedge, fun hall => ?_⟩
  have hempty := (hexact harray hmissing no_array_above).mp hall
  obtain ⟨e, he, -⟩ := hedge
  exact List.ne_nil_of_mem he hempty

end Copying

end ClassAtlas
