import ClassAtlas.Proofs.Calls.Nodes
import ClassAtlas.Proofs.Hierarchy.Construction
import Mathlib.Data.List.Nodup

/-!
The index of callers is the inverse of the calls. A call graph is collected unit by unit: its nodes
are the methods of the units that could be decoded in full, and the index lists each of their calls
under its callee as often as it is made. A unit that fails adds nothing to either.
-/

namespace ClassAtlas

/-- The codec decodes a unit to the declaration of the class that the unit is named for. -/
def Codec.KeepsNames (codec : Codec) : Prop :=
  ∀ name bytes d, codec.decode name bytes = .ok d → d.name = name

theorem ClassFile.codec_keepsNames : ClassFile.codec.KeepsNames := by
  intro name bytes d h
  simp only [codec, decode] at h
  split at h
  · rename_i found hfound
    cases h
    split at hfound
    · cases hfound
    · split at hfound
      · rename_i hname
        cases hfound
        exact hname
      · cases hfound
  · cases h

namespace LayerStack

variable {stack : LayerStack} {name : String}

/-- A unit of the project is decoded to the declaration. -/
def Declares (stack : LayerStack) (codec : Codec) (name : String) (d : ClassDecl) : Prop :=
  name ∈ stack.unitNames ∧ stack.decode? codec name = some (.ok d)

/-- No unit of the project declares two methods of one name and descriptor. -/
def MethodsDistinct (stack : LayerStack) (codec : Codec) : Prop :=
  ∀ name d, stack.Declares codec name d → (d.methods.map fun m => (m.name, m.descriptor)).Nodup

/-- The units of the project. -/
def projectUnits (stack : LayerStack) : List ClassUnit :=
  stack.unitNames.toList.filterMap stack.unit?

theorem unit?_name {u : ClassUnit} (h : stack.unit? name = some u) : u.name = name := by
  obtain ⟨l, _, hl⟩ := List.exists_of_findSome?_eq_some h
  obtain ⟨bytes, _, rfl⟩ := Option.map_eq_some_iff.mp hl
  rfl

theorem mem_projectUnits {u : ClassUnit} :
    u ∈ stack.projectUnits ↔ u.name ∈ stack.unitNames ∧ stack.unit? u.name = some u := by
  rw [projectUnits, List.mem_filterMap]
  constructor
  · rintro ⟨name, hname, hu⟩
    rw [unit?_name hu]
    exact ⟨Std.TreeSet.mem_toList.mp hname, hu⟩
  · rintro ⟨hname, hu⟩
    exact ⟨u.name, Std.TreeSet.mem_toList.mpr hname, hu⟩

theorem filterMap_unit?_names (names : List String) :
    ((names.filterMap stack.unit?).map ClassUnit.name).Sublist names := by
  induction names with
  | nil => exact .slnil
  | cons name names ih =>
    rw [List.filterMap_cons]
    cases hu : stack.unit? name with
    | none => exact ih.cons _
    | some u =>
      rw [List.map_cons, unit?_name hu]
      exact ih.cons_cons _

theorem exists_projectUnit (h : name ∈ stack.unitNames) :
    ∃ u ∈ stack.projectUnits, u.name = name := by
  obtain ⟨u, _, hu, _⟩ := exists_of_hasUnit (hasUnit_of_mem h)
  obtain rfl := unit?_name hu
  exact ⟨u, mem_projectUnits.mpr ⟨h, hu⟩, rfl⟩

theorem decode?_projectUnit (codec : Codec) {u : ClassUnit} (hu : u ∈ stack.projectUnits) :
    stack.decode? codec u.name = some (codec.decode u.name u.bytes) := by
  rw [decode?, (mem_projectUnits.mp hu).2, Option.map_some]

/-- The unit that a declaration was decoded from. -/
theorem Declares.exists_unit {codec : Codec} {d : ClassDecl} (hd : stack.Declares codec name d) :
    ∃ u ∈ stack.projectUnits, u.name = name ∧ codec.decode u.name u.bytes = .ok d := by
  obtain ⟨u, hu, hname⟩ := exists_projectUnit hd.1
  have hdecode := hd.2
  rw [← hname, decode?_projectUnit codec hu, Option.some_inj] at hdecode
  exact ⟨u, hu, hname, hdecode⟩

/-- No two units of the project have the same name. -/
theorem projectUnits_nodup (stack : LayerStack) :
    (stack.projectUnits.map ClassUnit.name).Nodup := by
  refine (filterMap_unit?_names _).nodup ?_
  exact Std.TreeSet.distinct_toList.imp fun h heq => h (by rw [heq]; exact Std.ReflCmp.compare_self)

end LayerStack

namespace FlowGraph

variable {codec : Codec} {h : HierarchyGraph}

/-! ### Single maps -/

/-- What is listed under a callee are the calls with this callee, in the order in which they come. -/
theorem getD_foldl_addCaller (edges : List CallEdge)
    (callers : Std.TreeMap MethodRef (List CallEdge)) (ref : MethodRef) :
    (edges.foldl addCaller callers).getD ref [] =
      callers.getD ref [] ++ edges.filter (·.callee = ref) := by
  induction edges generalizing callers with
  | nil => simp
  | cons e edges ih =>
    rw [List.foldl_cons, ih, addCaller, Std.TreeMap.getD_insert]
    by_cases heq : e.callee = ref
    · subst heq
      simp
    · rw [if_neg (by simpa using heq), List.filter_cons_of_neg (by simpa using heq)]

theorem getElem?_foldl_insert_of_not_mem {nodes : List FlowNode} {ref : MethodRef}
    (m : Std.TreeMap MethodRef FlowNode) (h : ref ∉ nodes.map FlowNode.method) :
    (nodes.foldl (fun m n => m.insert n.method n) m)[ref]? = m[ref]? := by
  induction nodes generalizing m with
  | nil => rfl
  | cons n nodes ih =>
    rw [List.map_cons, List.mem_cons, not_or] at h
    rw [List.foldl_cons, ih _ h.2, Std.TreeMap.getElem?_insert, if_neg]
    rw [Std.LawfulEqOrd.compare_eq_iff_eq]
    exact fun heq => h.1 heq.symm

/-- Nodes of different methods are found under their methods. -/
theorem getElem?_foldl_insert_of_mem {nodes : List FlowNode} {n : FlowNode}
    (m : Std.TreeMap MethodRef FlowNode) (hnodup : (nodes.map FlowNode.method).Nodup)
    (hn : n ∈ nodes) : (nodes.foldl (fun m n => m.insert n.method n) m)[n.method]? = some n := by
  induction nodes generalizing m with
  | nil => cases hn
  | cons x nodes ih =>
    obtain ⟨hx, hnodup⟩ := List.nodup_cons.mp hnodup
    rcases List.mem_cons.mp hn with rfl | hn
    · rw [List.foldl_cons, getElem?_foldl_insert_of_not_mem _ hx, Std.TreeMap.getElem?_insert_self]
    · exact ih _ hnodup hn

/-! ### Collecting the graph -/

/-- The nodes that a unit adds: those of all its methods, or none if it fails. -/
def nodesOf (codec : Codec) (h : HierarchyGraph) (u : ClassUnit) : List FlowNode :=
  match unitNodes codec h u with
  | .ok nodes => nodes
  | .error _ => []

/-- What a graph holds after some units: the nodes that they add, the calls of these nodes under
their callees, and the errors of the units that fail. -/
structure Collected (codec : Codec) (h : HierarchyGraph) (units : List ClassUnit) (g : FlowGraph) :
    Prop where
  nodes : g.nodes = (units.flatMap (nodesOf codec h)).foldl (fun m n => m.insert n.method n) ∅
  callers : g.callers =
    ((units.flatMap (nodesOf codec h)).flatMap FlowNode.calls).foldl addCaller ∅
  owned : ∀ name ∈ g.byOwner, ∃ u ∈ units, u.name = name ∧ ∃ nodes, unitNodes codec h u = .ok nodes
  failed : ∀ u ∈ units, ∀ e, g.failures[u.name]? = some e ↔ unitNodes codec h u = .error e
  failures : ∀ name ∈ g.failures, ∃ u ∈ units, u.name = name

theorem Collected.init (codec : Codec) (h : HierarchyGraph) : Collected codec h [] empty where
  nodes := rfl
  callers := rfl
  owned name hname := absurd hname Std.TreeMap.not_mem_emptyc
  failed u hu := by cases hu
  failures name hname := absurd hname Std.TreeMap.not_mem_emptyc

/-- One more unit, of a new name. -/
theorem Collected.addUnit {units : List ClassUnit} {g : FlowGraph} {u : ClassUnit}
    (hg : Collected codec h units g) (hu : u.name ∉ units.map ClassUnit.name) :
    Collected codec h (units ++ [u]) (g.addUnit u.name (unitNodes codec h u)) := by
  have hne {v : ClassUnit} (hv : v ∈ units) : u.name ≠ v.name := by
    intro heq
    exact hu (heq ▸ List.mem_map_of_mem hv)
  have hold {name : String} : (∃ v ∈ units, v.name = name) → ∃ v ∈ units ++ [u], v.name = name := by
    rintro ⟨v, hv, hname⟩
    exact ⟨v, List.mem_append_left _ hv, hname⟩
  cases hnodes : unitNodes codec h u with
  | error e =>
    have hflat : (units ++ [u]).flatMap (nodesOf codec h) = units.flatMap (nodesOf codec h) := by
      simp [nodesOf, hnodes]
    constructor
    case nodes =>
      rw [hflat]
      exact hg.nodes
    case callers =>
      rw [hflat]
      exact hg.callers
    case owned =>
      intro name hname
      obtain ⟨v, hv, hrest⟩ := hg.owned name hname
      exact ⟨v, List.mem_append_left _ hv, hrest⟩
    case failed =>
      intro v hv e'
      simp only [FlowGraph.addUnit, Std.TreeMap.getElem?_insert,
        Std.LawfulEqOrd.compare_eq_iff_eq]
      rcases List.mem_append.mp hv with hv | hv
      · rw [if_neg (hne hv)]
        exact hg.failed v hv e'
      · obtain rfl : v = u := List.mem_singleton.mp hv
        rw [if_pos rfl, hnodes, Option.some_inj, Except.error.injEq]
    case failures =>
      intro name hname
      rcases Std.TreeMap.mem_insert.mp hname with heq | hname
      · exact ⟨u, by simp, Std.LawfulEqOrd.eq_of_compare heq⟩
      · exact hold (hg.failures name hname)
  | ok nodes =>
    have hflat : (units ++ [u]).flatMap (nodesOf codec h) =
        units.flatMap (nodesOf codec h) ++ nodes := by
      simp [nodesOf, hnodes]
    constructor
    case nodes =>
      rw [hflat, List.foldl_append, ← hg.nodes]
      rfl
    case callers =>
      rw [hflat, List.flatMap_append, List.foldl_append, ← hg.callers]
      rfl
    case owned =>
      intro name hname
      rcases Std.TreeMap.mem_insert.mp hname with heq | hname
      · exact ⟨u, by simp, Std.LawfulEqOrd.eq_of_compare heq, nodes, hnodes⟩
      · obtain ⟨v, hv, hrest⟩ := hg.owned name hname
        exact ⟨v, List.mem_append_left _ hv, hrest⟩
    case failed =>
      intro v hv e'
      rcases List.mem_append.mp hv with hv | hv
      · exact hg.failed v hv e'
      · obtain rfl : v = u := List.mem_singleton.mp hv
        -- the name is new, so no failure is noted under it
        have hnew : g.failures[v.name]? = none := by
          refine Std.TreeMap.getElem?_eq_none fun hname => ?_
          obtain ⟨w, hw, heq⟩ := hg.failures _ hname
          exact hne hw heq.symm
        rw [hnodes]
        exact iff_of_false (by rw [FlowGraph.addUnit, hnew]; simp) (by simp)
    case failures =>
      intro name hname
      exact hold (hg.failures name hname)

theorem Collected.run {units rest : List ClassUnit} {g : FlowGraph}
    (hg : Collected codec h units g) (hnames : ((units ++ rest).map ClassUnit.name).Nodup) :
    Collected codec h (units ++ rest)
      (rest.foldl (fun g u => g.addUnit u.name (unitNodes codec h u)) g) := by
  induction rest generalizing units g with
  | nil =>
    rw [List.append_nil]
    exact hg
  | cons u rest ih =>
    have hu : u.name ∉ units.map ClassUnit.name := by
      rw [List.map_append, List.nodup_append] at hnames
      intro hmem
      exact hnames.2.2 _ hmem _ List.mem_cons_self rfl
    have hsplit : units ++ u :: rest = units ++ [u] ++ rest := by simp
    rw [hsplit] at hnames ⊢
    exact ih (hg.addUnit hu) hnames

theorem ofStack_collected (stack : LayerStack) (codec : Codec) (h : HierarchyGraph) :
    Collected codec h stack.projectUnits (ofStack stack codec h) :=
  (Collected.init codec h).run stack.projectUnits_nodup

/-! ### Units and their nodes -/

theorem mem_nodesOf {u : ClassUnit} {n : FlowNode} (hn : n ∈ nodesOf codec h u) :
    ∃ nodes, unitNodes codec h u = .ok nodes ∧ n ∈ nodes := by
  unfold nodesOf at hn
  split at hn
  · rename_i nodes hnodes
    exact ⟨nodes, hnodes, hn⟩
  · cases hn

/-- A unit fails if it is not decoded or the code of one of its methods is not. -/
theorem unitNodes_failed_iff {u : ClassUnit} : (∃ e, unitNodes codec h u = .error e) ↔
    (∃ e, codec.decode u.name u.bytes = .error e) ∨
      ∃ d, codec.decode u.name u.bytes = .ok d ∧ ∃ m ∈ d.methods, ∃ e, methodCode d m = .error e := by
  constructor
  · rintro ⟨e, he⟩
    cases hd : codec.decode u.name u.bytes with
    | error e' => exact .inl ⟨e', rfl⟩
    | ok d =>
      refine .inr ⟨d, rfl, ?_⟩
      by_contra hall
      have hnode : ∀ m ∈ d.methods, ∃ n, methodNode h d m = .ok n := by
        intro m hm
        cases hcode : methodCode d m with
        | error e' => exact absurd ⟨m, hm, e', hcode⟩ hall
        | ok code =>
          rw [methodNode, hcode]
          exact ⟨_, rfl⟩
      obtain ⟨nodes, hnodes⟩ := exists_forall₂ hnode
      rw [unitNodes_eq_ok.mpr ⟨d, hd, hnodes⟩] at he
      cases he
  · intro hfails
    cases hnodes : unitNodes codec h u with
    | error e => exact ⟨e, rfl⟩
    | ok nodes =>
      obtain ⟨d, hd, hall⟩ := unitNodes_eq_ok.mp hnodes
      rcases hfails with ⟨e, he⟩ | ⟨d', hd', m, hm, e, he⟩
      · rw [hd] at he
        cases he
      · rw [hd, Except.ok.injEq] at hd'
        subst hd'
        obtain ⟨n, _, hn⟩ := mem_of_forall₂ hall.flip hm
        rw [(methodNode_eq_ok hn).2] at he
        cases he

/-- The nodes of a unit belong to its methods, in order. -/
theorem unitNodes_methods {u : ClassUnit} {nodes : List FlowNode}
    (hnodes : unitNodes codec h u = .ok nodes) : ∃ d, codec.decode u.name u.bytes = .ok d ∧
      nodes.map FlowNode.method = d.methods.map fun m => ⟨d.name, m.name, m.descriptor⟩ := by
  obtain ⟨d, hd, hall⟩ := unitNodes_eq_ok.mp hnodes
  refine ⟨d, hd, ?_⟩
  clear hnodes
  generalize d.methods = methods at hall ⊢
  induction hall with
  | nil => rfl
  | cons hn _ ih => rw [List.map_cons, List.map_cons, ih, (methodNode_eq_ok hn).1]

theorem owner_of_mem_nodesOf {u : ClassUnit} {n : FlowNode} (hcodec : codec.KeepsNames)
    (hn : n ∈ nodesOf codec h u) : n.method.owner = u.name := by
  obtain ⟨nodes, hnodes, hn⟩ := mem_nodesOf hn
  obtain ⟨d, m, hd, _, hmn⟩ := mem_unitNodes hnodes hn
  rw [(methodNode_eq_ok hmn).1]
  exact hcodec _ _ _ hd

/-- No two nodes that a project adds belong to the same method, if none of its units declares a
method twice. -/
theorem projectNodes_nodup {stack : LayerStack} (hcodec : codec.KeepsNames)
    (hdistinct : stack.MethodsDistinct codec) :
    ((stack.projectUnits.flatMap (nodesOf codec h)).map FlowNode.method).Nodup := by
  rw [List.map_flatMap, List.nodup_flatMap]
  constructor
  · intro u hu
    cases hnodes : unitNodes codec h u with
    | error e => simp [nodesOf, hnodes]
    | ok nodes =>
      obtain ⟨d, hd, hmethods⟩ := unitNodes_methods hnodes
      have hdecl : stack.Declares codec u.name d := by
        refine ⟨(LayerStack.mem_projectUnits.mp hu).1, ?_⟩
        rw [LayerStack.decode?_projectUnit codec hu, hd]
      have hpairs := (hdistinct u.name d hdecl).map
        (f := fun x : String × String => (⟨d.name, x.1, x.2⟩ : MethodRef)) (by
          rintro ⟨_, _⟩ ⟨_, _⟩ heq
          cases heq
          rfl)
      rw [List.map_map] at hpairs
      rw [nodesOf, hnodes, hmethods]
      exact hpairs
  · refine (List.pairwise_map.mp stack.projectUnits_nodup).imp fun hne => ?_
    refine List.disjoint_left.mpr fun ref hu hv => ?_
    obtain ⟨n, hn, rfl⟩ := List.mem_map.mp hu
    obtain ⟨n', hn', heq⟩ := List.mem_map.mp hv
    exact hne (by rw [← owner_of_mem_nodesOf hcodec hn, ← owner_of_mem_nodesOf hcodec hn', heq])

/-- The calls of a node come from its method. -/
theorem caller_of_mem_calls {u : ClassUnit} {n : FlowNode} {e : CallEdge}
    (hn : n ∈ nodesOf codec h u) (he : e ∈ n.calls) : e.caller = n.method := by
  obtain ⟨nodes, hnodes, hn⟩ := mem_nodesOf hn
  obtain ⟨_, _, _, _, hmn⟩ := mem_unitNodes hnodes hn
  rw [(methodNode_calls hmn).2] at he
  obtain ⟨i, _, hi⟩ := List.mem_flatMap.mp he
  exact (mem_instructionCalls hi).1

/-- A call is made as often as the node of its caller makes it, if the nodes are those of different
methods. -/
theorem count_flatMap_calls {nodes : List FlowNode} {n : FlowNode} {e : CallEdge}
    (hnodup : (nodes.map FlowNode.method).Nodup)
    (hcaller : ∀ n ∈ nodes, ∀ e ∈ n.calls, e.caller = n.method) (hn : n ∈ nodes)
    (he : n.method = e.caller) : (nodes.flatMap FlowNode.calls).count e = n.calls.count e := by
  obtain ⟨before, after, rfl⟩ := List.append_of_mem hn
  rw [List.map_append, List.map_cons, List.nodup_middle, ← List.map_append] at hnodup
  have hothers {x : FlowNode} (hx : x ∈ before ++ after) : e ∉ x.calls := by
    intro hmem
    have hmethod : e.caller = x.method := by
      refine hcaller x ?_ e hmem
      rcases List.mem_append.mp hx with hx | hx
      · exact List.mem_append_left _ hx
      · exact List.mem_append_right _ (List.mem_cons_of_mem _ hx)
    rw [← he] at hmethod
    exact (List.nodup_cons.mp hnodup).1 (hmethod ▸ List.mem_map_of_mem hx)
  have hnone {xs : List FlowNode} (hxs : ∀ x ∈ xs, x ∈ before ++ after) :
      (xs.flatMap FlowNode.calls).count e = 0 := by
    refine List.count_eq_zero.mpr fun hmem => ?_
    obtain ⟨x, hx, hmem⟩ := List.mem_flatMap.mp hmem
    exact hothers (hxs x hx) hmem
  rw [List.flatMap_append, List.flatMap_cons, List.count_append, List.count_append,
    hnone fun x hx => List.mem_append_left _ hx, hnone fun x hx => List.mem_append_right _ hx]
  omega

/-- What a project adds to a call graph is found there. -/
theorem node?_ofStack_iff {stack : LayerStack} {ref : MethodRef} {n : FlowNode}
    (hcodec : codec.KeepsNames)
    (hdistinct : stack.MethodsDistinct codec) :
    (ofStack stack codec h).node? ref = some n ↔
      n ∈ stack.projectUnits.flatMap (nodesOf codec h) ∧ n.method = ref := by
  rw [node?, (ofStack_collected stack codec h).nodes]
  constructor
  · intro hn
    rcases getElem?_foldl_insert hn with hn | hn
    · exact hn
    · simp at hn
  · rintro ⟨hn, rfl⟩
    exact getElem?_foldl_insert_of_mem _ (projectNodes_nodup hcodec hdistinct) hn

/-- The index of callers lists the calls of the project with a callee. -/
theorem callersOf_ofStack (stack : LayerStack) (ref : MethodRef) :
    (ofStack stack codec h).callersOf ref =
      ((stack.projectUnits.flatMap (nodesOf codec h)).flatMap FlowNode.calls).filter
        (·.callee = ref) := by
  rw [callersOf, (ofStack_collected stack codec h).callers, getD_foldl_addCaller]
  simp

theorem failure?_ofStack_iff {stack : LayerStack} {u : ClassUnit} {e : Error}
    (hu : u ∈ stack.projectUnits) :
    (ofStack stack codec h).failure? u.name = some e ↔ unitNodes codec h u = .error e :=
  (ofStack_collected stack codec h).failed u hu e

/-- Failures are noted under the names of the units that fail. -/
theorem failure?_isSome_iff {stack : LayerStack} {name : String} :
    ((ofStack stack codec h).failure? name).isSome ↔
      ∃ u ∈ stack.projectUnits, u.name = name ∧ ∃ e, unitNodes codec h u = .error e := by
  constructor
  · intro hname
    obtain ⟨u, hu, rfl⟩ := (ofStack_collected stack codec h).failures name
      (Std.TreeMap.mem_iff_isSome_getElem?.mpr hname)
    obtain ⟨e, he⟩ := Option.isSome_iff_exists.mp hname
    exact ⟨u, hu, rfl, e, (failure?_ofStack_iff hu).mp he⟩
  · rintro ⟨u, hu, rfl, e, he⟩
    exact Option.isSome_iff_exists.mpr ⟨e, (failure?_ofStack_iff hu).mpr he⟩

/-- The units that fail, by what they are decoded to. -/
theorem failure?_isSome_iff_decode {stack : LayerStack} {name : String} :
    ((ofStack stack codec h).failure? name).isSome ↔ name ∈ stack.unitNames ∧
      ((∃ e, stack.decode? codec name = some (.error e)) ∨
        ∃ d m e, stack.Declares codec name d ∧ m ∈ d.methods ∧ methodCode d m = .error e) := by
  rw [failure?_isSome_iff]
  constructor
  · rintro ⟨u, hu, rfl, hunit⟩
    have hdecode := LayerStack.decode?_projectUnit codec hu
    have hname := (LayerStack.mem_projectUnits.mp hu).1
    rcases unitNodes_failed_iff.mp hunit with ⟨e, he⟩ | ⟨d, hd, m, hm, e, he⟩
    · exact ⟨hname, .inl ⟨e, by rw [hdecode, he]⟩⟩
    · exact ⟨hname, .inr ⟨d, m, e, ⟨hname, by rw [hdecode, hd]⟩, hm, he⟩⟩
  · rintro ⟨hname, hfailed⟩
    obtain ⟨u, hu, rfl⟩ := LayerStack.exists_projectUnit hname
    refine ⟨u, hu, rfl, unitNodes_failed_iff.mpr ?_⟩
    have hdecode := LayerStack.decode?_projectUnit codec hu
    rcases hfailed with ⟨e, he⟩ | ⟨d, m, e, hd, hm, he⟩
    · exact .inl ⟨e, Option.some_inj.mp (hdecode.symm.trans he)⟩
    · exact .inr ⟨d, Option.some_inj.mp (hdecode.symm.trans hd.2), m, hm, e, he⟩

/-- The unit of a node did not fail, and it declares the method of the node. -/
theorem of_mem_projectNodes {stack : LayerStack} {n : FlowNode} (hcodec : codec.KeepsNames)
    (hn : n ∈ stack.projectUnits.flatMap (nodesOf codec h)) :
    (ofStack stack codec h).failure? n.method.owner = none ∧
      ∃ d m, stack.Declares codec n.method.owner d ∧ m ∈ d.methods ∧ methodNode h d m = .ok n := by
  obtain ⟨u, hu, hn⟩ := List.mem_flatMap.mp hn
  rw [owner_of_mem_nodesOf hcodec hn]
  obtain ⟨nodes, hnodes, hn⟩ := mem_nodesOf hn
  obtain ⟨d, m, hd, hm, hmn⟩ := mem_unitNodes hnodes hn
  constructor
  · refine Option.eq_none_iff_forall_ne_some.mpr fun e he => ?_
    rw [failure?_ofStack_iff hu, hnodes] at he
    cases he
  · refine ⟨d, m, ⟨(LayerStack.mem_projectUnits.mp hu).1, ?_⟩, hm, hmn⟩
    rw [LayerStack.decode?_projectUnit codec hu, hd]

/-- The methods of a decoded unit that does not fail have nodes. -/
theorem exists_declaredNode {stack : LayerStack} {d : ClassDecl} {m : MethodDecl}
    (hfailure : (ofStack stack codec h).failure? d.name = none)
    (hd : stack.Declares codec d.name d) (hm : m ∈ d.methods) :
    ∃ n ∈ stack.projectUnits.flatMap (nodesOf codec h),
      n.method = ⟨d.name, m.name, m.descriptor⟩ := by
  obtain ⟨u, hu, hname, hdecode⟩ := hd.exists_unit
  cases hnodes : unitNodes codec h u with
  | error e =>
    rw [← hname, (failure?_ofStack_iff hu).mpr hnodes] at hfailure
    cases hfailure
  | ok nodes =>
    obtain ⟨d', hd', hmethods⟩ := unitNodes_methods hnodes
    rw [hdecode, Except.ok.injEq] at hd'
    subst hd'
    have href : ⟨d.name, m.name, m.descriptor⟩ ∈ nodes.map FlowNode.method := by
      rw [hmethods]
      exact List.mem_map.mpr ⟨m, hm, rfl⟩
    obtain ⟨n, hn, hmethod⟩ := List.mem_map.mp href
    refine ⟨n, List.mem_flatMap.mpr ⟨u, hu, ?_⟩, hmethod⟩
    rw [nodesOf, hnodes]
    exact hn

/-- A method of a unit that does not fail has a node. -/
theorem exists_projectNode {stack : LayerStack} {ref : MethodRef} {d : ClassDecl} {m : MethodDecl}
    (hcodec : codec.KeepsNames) (hfailure : (ofStack stack codec h).failure? ref.owner = none)
    (hd : stack.Declares codec ref.owner d) (hm : m ∈ d.methods) (hname : m.name = ref.name)
    (hdescriptor : m.descriptor = ref.descriptor) :
    ∃ n ∈ stack.projectUnits.flatMap (nodesOf codec h), n.method = ref := by
  obtain ⟨u, -, hunit, hdecode⟩ := hd.exists_unit
  have howner : d.name = ref.owner := (hcodec _ _ _ hdecode).trans hunit
  have href : ref = ⟨d.name, m.name, m.descriptor⟩ := by rw [howner, hname, hdescriptor]
  rw [← howner] at hfailure hd
  rw [href]
  exact exists_declaredNode hfailure hd hm

/-- Under a callee, every call with this callee is listed as often as the node of its caller makes
it. -/
theorem count_callersOf {stack : LayerStack} (hcodec : codec.KeepsNames)
    (hdistinct : stack.MethodsDistinct codec) (ref : MethodRef) (e : CallEdge) :
    ((ofStack stack codec h).callersOf ref).count e =
      if e.callee = ref then
        (((ofStack stack codec h).node? e.caller).map fun n => n.calls.count e).getD 0
      else 0 := by
  have hcaller : ∀ n ∈ stack.projectUnits.flatMap (nodesOf codec h), ∀ e ∈ n.calls,
      e.caller = n.method := by
    intro n hn e he
    obtain ⟨u, _, hn⟩ := List.mem_flatMap.mp hn
    exact caller_of_mem_calls hn he
  rw [callersOf_ofStack]
  by_cases hcallee : e.callee = ref
  · rw [List.count_filter (by simpa using hcallee), if_pos hcallee]
    cases hn : (ofStack stack codec h).node? e.caller with
    | none =>
      refine List.count_eq_zero.mpr fun hmem => ?_
      obtain ⟨n, hadded, he⟩ := List.mem_flatMap.mp hmem
      rw [(node?_ofStack_iff hcodec hdistinct).mpr ⟨hadded, (hcaller n hadded e he).symm⟩] at hn
      cases hn
    | some n =>
      obtain ⟨hadded, hmethod⟩ := (node?_ofStack_iff hcodec hdistinct).mp hn
      exact count_flatMap_calls (projectNodes_nodup hcodec hdistinct) hcaller hadded hmethod
  · rw [if_neg hcallee]
    exact List.count_eq_zero.mpr fun hmem => hcallee (by simpa using (List.mem_filter.mp hmem).2)

theorem methodsOf_of_failure {stack : LayerStack} {name : String}
    (hname : ((ofStack stack codec h).failure? name).isSome) :
    (ofStack stack codec h).methodsOf name = [] := by
  obtain ⟨u, hu, rfl, e, he⟩ := failure?_isSome_iff.mp hname
  have hnone : u.name ∉ (ofStack stack codec h).byOwner := by
    intro hmem
    obtain ⟨v, hv, heq, nodes, hnodes⟩ := (ofStack_collected stack codec h).owned _ hmem
    obtain rfl : v = u := List.inj_on_of_nodup_map stack.projectUnits_nodup hv hu heq
    rw [he] at hnodes
    cases hnodes
  rw [methodsOf, Std.TreeMap.getD_eq_fallback hnone]
  rfl

/-- No call of a failed unit is listed anywhere. -/
theorem owner_ne_of_failure {stack : LayerStack} {name : String} (hcodec : codec.KeepsNames)
    (hname : ((ofStack stack codec h).failure? name).isSome) {ref : MethodRef} {e : CallEdge}
    (he : e ∈ (ofStack stack codec h).callersOf ref) : e.caller.owner ≠ name := by
  rw [callersOf_ofStack] at he
  obtain ⟨n, hadded, hmem⟩ := List.mem_flatMap.mp (List.mem_filter.mp he).1
  obtain ⟨u, _, hn⟩ := List.mem_flatMap.mp hadded
  rw [caller_of_mem_calls hn hmem]
  rintro rfl
  rw [(of_mem_projectNodes hcodec hadded).1] at hname
  cases hname

/-- The index of callers is the inverse of the calls. The nodes of a call graph are the methods of
the units that did not fail, and a unit fails if it is not decoded or the code of a method is not.
Under a callee, every call with this callee is listed as often as the node of its caller makes it,
and no other. What a failed unit declares is in no part of the graph. -/
theorem callersOf_inverse {stack : LayerStack} (h : HierarchyGraph) (hcodec : codec.KeepsNames)
    (hdistinct : stack.MethodsDistinct codec) :
    let g := ofStack stack codec h
    (∀ ref, (g.node? ref).isSome ↔ g.failure? ref.owner = none ∧
      ∃ d m, stack.Declares codec ref.owner d ∧ m ∈ d.methods ∧
        m.name = ref.name ∧ m.descriptor = ref.descriptor) ∧
    (∀ ref n, g.node? ref = some n → n.method = ref ∧
      ∃ d m, stack.Declares codec ref.owner d ∧ m ∈ d.methods ∧ methodNode h d m = .ok n) ∧
    (∀ name, (g.failure? name).isSome ↔ name ∈ stack.unitNames ∧
      ((∃ e, stack.decode? codec name = some (.error e)) ∨
        ∃ d m e, stack.Declares codec name d ∧ m ∈ d.methods ∧ methodCode d m = .error e)) ∧
    (∀ ref e, (g.callersOf ref).count e =
      if e.callee = ref then ((g.node? e.caller).map fun n => n.calls.count e).getD 0 else 0) ∧
    ∀ name, (g.failure? name).isSome →
      (∀ ref, ref.owner = name → g.node? ref = none) ∧ g.methodsOf name = [] ∧
        ∀ ref, ∀ e ∈ g.callersOf ref, e.caller.owner ≠ name := by
  intro g
  have hnode {ref : MethodRef} {n : FlowNode} : g.node? ref = some n ↔
      n ∈ stack.projectUnits.flatMap (nodesOf codec h) ∧ n.method = ref :=
    node?_ofStack_iff hcodec hdistinct
  have hsome (ref : MethodRef) : (g.node? ref).isSome ↔ g.failure? ref.owner = none ∧
      ∃ d m, stack.Declares codec ref.owner d ∧ m ∈ d.methods ∧
        m.name = ref.name ∧ m.descriptor = ref.descriptor := by
    constructor
    · intro hsome
      obtain ⟨n, hn⟩ := Option.isSome_iff_exists.mp hsome
      obtain ⟨hadded, rfl⟩ := hnode.mp hn
      obtain ⟨hfailure, d, m, hd, hm, hmn⟩ := of_mem_projectNodes hcodec hadded
      have hmethod := (methodNode_eq_ok hmn).1
      exact ⟨hfailure, d, m, hd, hm, by rw [hmethod], by rw [hmethod]⟩
    · rintro ⟨hfailure, d, m, hd, hm, hname, hdescriptor⟩
      obtain ⟨n, hadded, hmethod⟩ := exists_projectNode hcodec hfailure hd hm hname hdescriptor
      exact Option.isSome_iff_exists.mpr ⟨n, hnode.mpr ⟨hadded, hmethod⟩⟩
  refine ⟨hsome, fun ref n hn => ?_, fun name => failure?_isSome_iff_decode,
    count_callersOf hcodec hdistinct, fun name hname => ⟨fun ref howner => ?_,
      methodsOf_of_failure hname, fun ref e => owner_ne_of_failure hcodec hname⟩⟩
  · obtain ⟨hadded, rfl⟩ := hnode.mp hn
    exact ⟨rfl, (of_mem_projectNodes hcodec hadded).2⟩
  · subst howner
    rw [← Option.not_isSome_iff_eq_none, hsome]
    rintro ⟨hfailure, -⟩
    change (g.failure? ref.owner).isSome at hname
    rw [hfailure] at hname
    cases hname

end FlowGraph

/-!
Two units with the same method, which calls itself in the first and is called from the second. The
second unit has another method whose code is no instruction, so none of its calls is noted.
-/

namespace HalfDecoded

def caller : Bytes :=
  [0xCA, 0xFE, 0xBA, 0xBE, 0, 0, 0, 52, 0, 8, 1, 0, 1, 0x41, 7, 0, 1, 1, 0, 1, 0x6D, 1, 0, 3, 0x28,
    0x29, 0x56, 12, 0, 3, 0, 4, 10, 0, 2, 0, 5, 1, 0, 4, 0x43, 0x6F, 0x64, 0x65, 0, 0, 0, 2, 0, 0,
    0, 0, 0, 0, 0, 1, 0, 8, 0, 3, 0, 4, 0, 1, 0, 7, 0, 0, 0, 16, 0, 0, 0, 0, 0, 0, 0, 4, 0xB8, 0, 6,
    0xB1, 0, 0, 0, 0, 0, 0]

def broken : Bytes :=
  [0xCA, 0xFE, 0xBA, 0xBE, 0, 0, 0, 52, 0, 11, 1, 0, 1, 0x41, 7, 0, 1, 1, 0, 1, 0x6D, 1, 0, 3, 0x28,
    0x29, 0x56, 12, 0, 3, 0, 4, 10, 0, 2, 0, 5, 1, 0, 1, 0x42, 7, 0, 7, 1, 0, 4, 0x43, 0x6F, 0x64,
    0x65, 1, 0, 1, 0x6E, 0, 0, 0, 8, 0, 0, 0, 0, 0, 0, 0, 2, 0, 8, 0, 3, 0, 4, 0, 1, 0, 9, 0, 0, 0,
    16, 0, 0, 0, 0, 0, 0, 0, 4, 0xB8, 0, 6, 0xB1, 0, 0, 0, 0, 0, 8, 0, 10, 0, 4, 0, 1, 0, 9, 0, 0,
    0, 13, 0, 0, 0, 0, 0, 0, 0, 1, 0xFF, 0, 0, 0, 0, 0, 0]

def stack : LayerStack where
  project := [⟨"app", .primary, .ofList [("A", caller), ("B", broken)], ∅, ∅⟩]
  runtime := .empty "runtime" .runtime

def flow : FlowGraph :=
  .ofStack stack ClassFile.codec (.ofStack stack ClassFile.codec)

def self : MethodRef := ⟨"A", "m", "()V"⟩

/-- The call of the first unit. -/
def call : CallEdge := ⟨self, self, .static, .direct, 0, true⟩

theorem methods : stack.unitNames.toList.map (fun name =>
    ((stack.decode? ClassFile.codec name).bind Except.toOption).map fun d =>
      d.methods.map fun m => (m.name, m.descriptor)) =
    [some [("m", "()V")], some [("m", "()V"), ("n", "()V")]] := by
  decide +kernel

theorem methodsDistinct : stack.MethodsDistinct ClassFile.codec := by
  rintro name d ⟨hname, hd⟩
  have hmem := List.mem_map_of_mem
    (f := fun name => ((stack.decode? ClassFile.codec name).bind Except.toOption).map fun d =>
      d.methods.map fun m => (m.name, m.descriptor)) (Std.TreeSet.mem_toList.mpr hname)
  rw [methods] at hmem
  simp only [hd, Option.bind_some, Except.toOption, Option.map_some, List.mem_cons,
    Option.some_inj, List.not_mem_nil, or_false] at hmem
  rcases hmem with heq | heq
  · rw [heq]
    decide
  · rw [heq]
    decide

theorem failed_unit_left_out : ClassFile.codec.KeepsNames ∧
    stack.MethodsDistinct ClassFile.codec ∧ (flow.failure? "B").isSome ∧
    flow.methodsOf "B" = [] ∧ (∀ ref, ∀ e ∈ flow.callersOf ref, e.caller.owner ≠ "B") ∧
    (flow.callersOf self).count call = 1 := by
  have hfailed : (flow.failure? "B").isSome = true := by decide +kernel
  have hcalls : (flow.node? self).map FlowNode.calls = some [call] := by decide +kernel
  obtain ⟨-, -, -, hcount, hleft⟩ := FlowGraph.callersOf_inverse
    (.ofStack stack ClassFile.codec) ClassFile.codec_keepsNames methodsDistinct
  obtain ⟨-, hmethods, hcallers⟩ := hleft "B" hfailed
  refine ⟨ClassFile.codec_keepsNames, methodsDistinct, hfailed, hmethods, hcallers, ?_⟩
  obtain ⟨n, hn, hcall⟩ := Option.map_eq_some_iff.mp hcalls
  have hself : (flow.callersOf self).count call =
      ((flow.node? self).map (·.calls.count call)).getD 0 := (hcount self call).trans (if_pos rfl)
  rw [hself, hn]
  simp [hcall]

end HalfDecoded

end ClassAtlas
