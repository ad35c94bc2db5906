import ClassAtlas.Proofs.Calls.Callers
import ClassAtlas.Proofs.ClassFile.Reencoding
import ClassAtlas.Proofs.Code.StackDepth
import ClassAtlas.Proofs.Workspace.Freshness
import ClassAtlas.Workspace.Session

/-!
Writing a class of a workspace anew is invisible to its graphs. Graphs are built from names, the parts
that layers play and what units are decoded to; stacks that agree on these have the same graphs, and
stacks with a unit and with what it has been encoded to agree on them.
-/

namespace ClassAtlas

/-! ### What graphs take from a declaration -/

namespace ClassDecl.Alike

variable {d d' : ClassDecl}

theorem node (h : d.Alike d') (layer : LayerKind) :
    TypeNode.ofDecl d' layer = TypeNode.ofDecl d layer := by
  have hmethods : d.methods.map (fun m => MethodSig.mk m.name m.descriptor m.access) =
      d'.methods.map fun m => ⟨m.name, m.descriptor, m.access⟩ := by
    apply ClassFile.forall₂_eq
    rw [List.forall₂_map_left_iff, List.forall₂_map_right_iff]
    refine h.methods.imp ?_
    rintro m m' ⟨haccess, hname, hdescriptor, _⟩
    rw [haccess, hname, hdescriptor]
  simp only [TypeNode.ofDecl, h.name, h.access, h.superName, h.interfaces, ← hmethods]

theorem parents (h : d.Alike d') : d'.parents = d.parents := by
  simp only [ClassDecl.parents, h.superName, h.interfaces]

theorem inheritance (h : d.Alike d') : d'.inheritance = d.inheritance := by
  simp only [ClassDecl.inheritance, h.superName, h.interfaces]

theorem addType (h : d.Alike d') (g : HierarchyGraph) (known : String → Bool) (name : String)
    (layer : LayerKind) : g.addType known name d' layer = g.addType known name d layer := by
  simp only [HierarchyGraph.addType, h.node, h.parents, h.inheritance]

theorem methodNodes (h : d.Alike d') (g : HierarchyGraph) :
    d'.methods.mapM (FlowGraph.methodNode g d') = d.methods.mapM (FlowGraph.methodNode g d) := by
  refine (mapM_congr (h.methods.imp ?_)).symm
  rintro m m' ⟨haccess, hname, hdescriptor, hcode⟩
  rw [FlowGraph.methodNode, FlowGraph.methodNode, haccess, hname, hdescriptor, hcode, h.name]

end ClassDecl.Alike

/-- Both outcomes of decoding say the same. -/
inductive DecodedAlike : Except Error ClassDecl → Except Error ClassDecl → Prop
  | same (r : Except Error ClassDecl) : DecodedAlike r r
  | decoded {d d' : ClassDecl} (h : d.Alike d') : DecodedAlike (.ok d) (.ok d')

theorem DecodedAlike.refl (r : Option (Except Error ClassDecl)) : Option.Rel DecodedAlike r r := by
  cases r with
  | none => exact .none
  | some r => exact .some (.same r)

theorem DecodedAlike.unitNodes {codec : Codec} {u u' : ClassUnit}
    (h : DecodedAlike (codec.decode u.name u.bytes) (codec.decode u'.name u'.bytes))
    (g : HierarchyGraph) : FlowGraph.unitNodes codec g u' = FlowGraph.unitNodes codec g u := by
  unfold FlowGraph.unitNodes
  generalize codec.decode u.name u.bytes = r at h
  generalize codec.decode u'.name u'.bytes = r' at h
  cases h with
  | same => rfl
  | decoded hd => simp only [hd.methodNodes]

/-! ### What graphs take from a stack -/

namespace LayerStack

/-- Both stacks hold units of the same names in the same parts, which are decoded alike. -/
structure Alike (codec : Codec) (s t : LayerStack) : Prop where
  names : t.unitNames = s.unitNames
  known : t.hasUnit = s.hasUnit
  kind : ∀ name, (t.containing? name).map Layer.kind = (s.containing? name).map Layer.kind
  decoded : ∀ name, Option.Rel DecodedAlike (s.decode? codec name) (t.decode? codec name)

variable {codec : Codec} {s t : LayerStack}

theorem visit_eq (s : LayerStack) (codec : Codec) (seen : Std.TreeSet String) (g : HierarchyGraph)
    (name : String) : HierarchyGraph.visit s codec seen g name =
      match s.decode? codec name with
      | none => (g, [])
      | some (.error e) => (g.addFailure name e, [])
      | some (.ok d) => (g.addType (HierarchyGraph.isKnown s seen) name d
          (((s.containing? name).map Layer.kind).getD .runtime), d.parents) := by
  rw [HierarchyGraph.visit, decode?]
  cases s.unit? name with
  | none => rfl
  | some u =>
    rw [Option.map_some]
    dsimp only
    cases codec.decode u.name u.bytes with
    | error e => rfl
    | ok d => rfl

theorem Alike.visit (h : s.Alike codec t) (seen : Std.TreeSet String) (g : HierarchyGraph)
    (name : String) :
    HierarchyGraph.visit t codec seen g name = HierarchyGraph.visit s codec seen g name := by
  have hknown : HierarchyGraph.isKnown t seen = HierarchyGraph.isKnown s seen := by
    funext name
    rw [HierarchyGraph.isKnown, HierarchyGraph.isKnown, h.known]
  rw [visit_eq, visit_eq, hknown, h.kind]
  have hname := h.decoded name
  cases hs : s.decode? codec name with
  | none =>
    rw [hs] at hname
    cases ht : t.decode? codec name with
    | none => rfl
    | some r =>
      rw [ht] at hname
      cases hname
  | some r =>
    rw [hs] at hname
    cases ht : t.decode? codec name with
    | none =>
      rw [ht] at hname
      cases hname
    | some r' =>
      rw [ht] at hname
      cases hname with
      | some halike =>
        cases halike with
        | same => rfl
        | decoded hd => simp only [hd.addType, hd.parents]

theorem Alike.explore (h : s.Alike codec t) (g : HierarchyGraph) (seen : Std.TreeSet String)
    (queue : List String) :
    HierarchyGraph.explore t codec g seen queue = HierarchyGraph.explore s codec g seen queue := by
  fun_induction HierarchyGraph.explore s codec g seen queue with
  | case1 g seen => rw [HierarchyGraph.explore]
  | case2 g seen name queue visited found ih =>
    rw [HierarchyGraph.explore, h.visit, h.known]
    exact ih

/-- Stacks that agree have the same inheritance graph. -/
theorem Alike.hierarchy (h : s.Alike codec t) :
    HierarchyGraph.ofStack t codec = HierarchyGraph.ofStack s codec := by
  rw [HierarchyGraph.ofStack, HierarchyGraph.ofStack, h.names]
  exact h.explore _ _ _

theorem Alike.flow (h : s.Alike codec t) (g : HierarchyGraph) :
    FlowGraph.ofStack t codec g = FlowGraph.ofStack s codec g := by
  rw [FlowGraph.ofStack, FlowGraph.ofStack, h.names, List.foldl_filterMap, List.foldl_filterMap]
  refine List.foldl_ext _ _ _ fun flow name _ => ?_
  have hname := h.decoded name
  rw [decode?, decode?] at hname
  cases hs : s.unit? name with
  | none =>
    cases ht : t.unit? name with
    | none => rfl
    | some u' =>
      rw [hs, ht] at hname
      cases hname
  | some u =>
    cases ht : t.unit? name with
    | none =>
      rw [hs, ht] at hname
      cases hname
    | some u' =>
      rw [hs, ht] at hname
      cases hname with
      | some halike =>
        dsimp only
        rw [halike.unitNodes, unit?_name hs, unit?_name ht]

end LayerStack

/-! ### Putting a unit in place of another -/

namespace Layer

variable {l : Layer} {u : ClassUnit}

theorem unit?_insertUnit (l : Layer) (u : ClassUnit) (name : String) :
    (l.insertUnit u).unit? name = if u.name = name then some u else l.unit? name := by
  simp only [unit?, insertUnit, Std.TreeMap.getElem?_insert, Std.LawfulEqOrd.compare_eq_iff_eq]
  split
  · rename_i hname
    rw [← hname]
    rfl
  · rfl

theorem containsUnit_insertUnit (h : l.containsUnit u.name = true) (name : String) :
    (l.insertUnit u).containsUnit name = l.containsUnit name := by
  simp only [containsUnit, insertUnit, Std.TreeMap.contains_insert] at h ⊢
  by_cases hname : u.name = name
  · rw [← hname, h, Bool.or_true]
  · have hne : (compare u.name name == .eq) = false := by simpa using hname
    rw [hne, Bool.false_or]

/-- The names of a layer stay, in their order, when a unit is put in place of another. -/
theorem unitNames_insertUnit (h : l.containsUnit u.name = true) :
    (l.insertUnit u).unitNames = l.unitNames := by
  have hmem (name : String) : name ∈ (l.insertUnit u).unitNames ↔ name ∈ l.unitNames := by
    have hsame := containsUnit_insertUnit h name
    simp only [unitNames, Std.TreeMap.mem_keys]
    rw [← Std.TreeMap.contains_iff_mem, ← Std.TreeMap.contains_iff_mem]
    exact iff_of_eq (congrArg (· = true) hsame)
  have hirrefl (a b : String) (hab : compare a b = .lt) : a ≠ b := by
    rintro rfl
    simp at hab
  have hordered (l : Layer) : l.unitNames.Pairwise fun a b => compare a b = .lt :=
    Std.TreeMap.ordered_keys
  have hnodup (l : Layer) : l.unitNames.Nodup := (hordered l).imp (hirrefl _ _)
  have hperm := (List.perm_ext_iff_of_nodup (hnodup _) (hnodup _)).mpr hmem
  refine hperm.eq_of_pairwise (fun a b _ _ hab hba => ?_) (hordered _) (hordered _)
  rw [Std.OrientedOrd.eq_swap, hba] at hab
  cases hab

end Layer

namespace LayerStack

variable {codec : Codec}

/-- A unit in the first layer may be replaced by one that is decoded alike. -/
theorem alike_insertUnit {first : Layer} {others : List Layer} {runtime : Layer} {u : ClassUnit}
    {bytes : Bytes} (hu : first.unit? u.name = some u)
    (h : DecodedAlike (codec.decode u.name u.bytes) (codec.decode u.name bytes)) :
    Alike codec ⟨first :: others, runtime⟩ ⟨first.insertUnit ⟨u.name, bytes⟩ :: others, runtime⟩ := by
  have hcontains : first.containsUnit u.name = true := by
    obtain ⟨_, hbytes, _⟩ := Option.map_eq_some_iff.mp hu
    rw [Layer.containsUnit, Std.TreeMap.contains_eq_isSome_getElem?, hbytes, Option.isSome_some]
  have hsame := Layer.containsUnit_insertUnit (u := ⟨u.name, bytes⟩) hcontains
  refine ⟨?_, ?_, ?_, ?_⟩
  · rw [unitNames, unitNames, List.flatMap_cons, List.flatMap_cons,
      Layer.unitNames_insertUnit (u := ⟨u.name, bytes⟩) hcontains]
  · funext name
    simp only [hasUnit, layers, List.cons_append, List.any_cons, hsame]
  · intro name
    simp only [containing?, layers, List.cons_append, List.find?_cons, hsame]
    cases first.containsUnit name with
    | true => rfl
    | false => rfl
  · intro name
    simp only [decode?, unit?, layers, List.cons_append, List.findSome?_cons,
      Layer.unit?_insertUnit]
    by_cases hname : u.name = name
    · rw [if_pos hname, ← hname, hu]
      exact .some h
    · rw [if_neg hname]
      exact DecodedAlike.refl _

end LayerStack

namespace Workspace

theorem hierarchyGraph_codec (w : Workspace) : w.hierarchyGraph.2.codec = w.codec := by
  unfold hierarchyGraph
  cases hkept : w.hierarchy.value with
  | some g => rfl
  | none => exact w.consultForGraphs_same.2.1

/-- Encoding a declaration takes nothing but the declaration and the flags into account. -/
theorem encodeUnitWith_run {w : Workspace} (hcodec : w.codec = ClassFile.codec) (d : ClassDecl)
    (flags : WriterFlags) :
    ((Session.encodeUnitWith d flags).run w).1 = ClassFile.encode d flags := by
  have hrun : ((Session.encodeUnitWith d flags).run w).1 =
      w.hierarchyGraph.2.codec.encode d flags w.hierarchyGraph.1.oracle := rfl
  rw [hrun, hierarchyGraph_codec, hcodec]
  rfl

/-- Whatever a unit of the primary layer is encoded to can be put in its place: the graphs that are
built afterwards are those that were built before, for every unit and in all that they hold, provided
that the class and the bodies of all of its methods can be decoded. -/
theorem reencoded_unseen {w : Workspace} {name : String} {u : ClassUnit} {d : ClassDecl}
    {flags : WriterFlags} {bytes : Bytes} (hcodec : w.codec = ClassFile.codec)
    (hu : w.primary.unit? name = some u) (hd : w.codec.decode u.name u.bytes = .ok d)
    (hbodies : ∀ m ∈ d.methods, ∀ body ∈ m.body, ∃ is, d.instructions body = .ok is)
    (hbytes : ((Session.encodeUnitWith d flags).run w).1 = .ok bytes) :
    let w' := (w.edit (.putUnit ⟨u.name, bytes⟩)).invalidate
    w'.hierarchyGraph.1 = w.invalidate.hierarchyGraph.1 ∧
      w'.flowGraph.1 = w.invalidate.flowGraph.1 := by
  intro w'
  have hname : u.name = name := by
    obtain ⟨_, _, rfl⟩ := Option.map_eq_some_iff.mp hu
    rfl
  have hdecoded : ClassFile.decode u.name u.bytes = .ok d := by
    rwa [hcodec, ClassFile.codec_decode_eq_ok] at hd
  have hcode : ∀ m ∈ d.methods, ∃ code, FlowGraph.methodCode d m = .ok code := by
    intro m hm
    unfold FlowGraph.methodCode
    cases hbody : m.body with
    | none => exact ⟨_, rfl⟩
    | some body =>
      obtain ⟨is, his⟩ := hbodies m hm body hbody
      exact ⟨(is, body.handlers), by simp only [his]⟩
  rw [encodeUnitWith_run hcodec] at hbytes
  obtain ⟨d', hd', halike⟩ := ClassFile.decode_encode_alike hdecoded hcode hbytes
  have hagain : w.codec.decode u.name bytes = .ok d' := by
    rwa [hcodec, ClassFile.codec_decode_eq_ok]
  have hstack : w.stack.Alike w.codec w'.stack := by
    refine LayerStack.alike_insertUnit (hname.symm ▸ hu) ?_
    rw [hd, hagain]
    exact .decoded halike
  have hhierarchy : w'.hierarchyNow = w.invalidate.hierarchyNow := hstack.hierarchy
  refine ⟨?_, ?_⟩
  · rw [(hierarchyGraph_answered (.invalidate _)).value, hhierarchy,
      (hierarchyGraph_answered (.invalidate _)).value]
  · have hflow : w'.flowNow = w.invalidate.flowNow := by
      rw [flowNow, flowNow, hhierarchy]
      exact hstack.flow _
    rw [(flowGraph_answered (.invalidate _)).value, hflow,
      (flowGraph_answered (.invalidate _)).value]

end Workspace

namespace Doubled

open ClassFile

/-- A workspace with nothing but the class whose name is in its pool twice. -/
def workspace : Workspace :=
  .ofLayers ((Layer.empty "app" .primary).insertUnit ⟨"A", bytes⟩) [] .empty "app.jar"

theorem reencoded_type :
    let w' := (workspace.edit (.putUnit ⟨"A", header ++ newPool ++ newMembers⟩)).invalidate
    bytes ≠ header ++ newPool ++ newMembers ∧
      w'.hierarchyGraph.1 = workspace.invalidate.hierarchyGraph.1 ∧
      w'.flowGraph.1 = workspace.invalidate.flowGraph.1 := by
  have hunit : workspace.primary.unit? "A" = some ⟨"A", bytes⟩ :=
    (Layer.unit?_insertUnit _ _ _).trans (if_pos rfl)
  have hdecode : workspace.codec.decode "A" bytes = .ok type :=
    codec_decode_eq_ok.mpr decode_bytes
  have hbodies : ∀ m ∈ type.methods, ∀ b ∈ m.body, ∃ is, type.instructions b = .ok is := by
    simp only [type, List.mem_singleton, forall_eq]
    rintro b ⟨⟩
    exact ⟨instructions, instructions_body⟩
  have hencode : ((Session.encodeUnitWith type .computeMaxs).run workspace).1 =
      .ok (header ++ newPool ++ newMembers) := by
    rw [Workspace.encodeUnitWith_run rfl, encode_type]
  exact ⟨by decide, Workspace.reencoded_unseen rfl hunit hdecode hbodies hencode⟩

end Doubled

end ClassAtlas
