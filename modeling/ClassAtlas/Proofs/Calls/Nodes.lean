import ClassAtlas.Calls.Graph
import ClassAtlas.Proofs.Code.Tiling
import ClassAtlas.Proofs.Steps

/-!
The nodes of a call graph come from the methods of the units of the project, one by one.
-/

namespace ClassAtlas

instance : Std.TransOrd MethodRef :=
  inferInstanceAs (Std.TransCmp (compareLex (compareOn MethodRef.owner)
    (compareLex (compareOn MethodRef.name) (compareOn MethodRef.descriptor))))

instance : Std.LawfulEqOrd MethodRef where
  eq_of_compare {a b} h := by
    have hparts : compare a.owner b.owner = .eq ∧ compare a.name b.name = .eq ∧
        compare a.descriptor b.descriptor = .eq := by
      rw [← Ordering.then_eq_eq, ← Ordering.then_eq_eq]
      exact h
    obtain ⟨howner, hname, hdescriptor⟩ := hparts
    cases a
    cases b
    cases Std.LawfulEqOrd.eq_of_compare howner
    cases Std.LawfulEqOrd.eq_of_compare hname
    cases Std.LawfulEqOrd.eq_of_compare hdescriptor
    rfl

namespace FlowGraph

theorem getElem?_foldl_insert {nodes : List FlowNode} {m : Std.TreeMap MethodRef FlowNode}
    {caller : MethodRef} {n : FlowNode}
    (h : (nodes.foldl (fun m n => m.insert n.method n) m)[caller]? = some n) :
    (n ∈ nodes ∧ n.method = caller) ∨ m[caller]? = some n := by
  induction nodes generalizing m with
  | nil => exact .inr h
  | cons x nodes ih =>
    rcases ih h with ⟨hmem, hn⟩ | hn
    · exact .inl ⟨List.mem_cons_of_mem _ hmem, hn⟩
    · rw [Std.TreeMap.getElem?_insert] at hn
      split at hn
      · rename_i heq
        cases hn
        exact .inl ⟨List.mem_cons_self, Std.LawfulEqOrd.compare_eq_iff_eq.mp heq⟩
      · exact .inr hn

/-- A node that a unit adds is one of its methods. -/
theorem node?_addUnit {g : FlowGraph} {name : String} {result : Except Error (List FlowNode)}
    {caller : MethodRef} {n : FlowNode} (h : (g.addUnit name result).node? caller = some n) :
    (∃ nodes, result = .ok nodes ∧ n ∈ nodes ∧ n.method = caller) ∨ g.node? caller = some n := by
  cases result with
  | error e => exact .inr h
  | ok nodes =>
    rcases getElem?_foldl_insert h with ⟨hmem, hn⟩ | hold
    · exact .inl ⟨nodes, rfl, hmem, hn⟩
    · exact .inr hold

/-- A unit has nodes if it is decoded and all its methods are; these are its nodes, in order. -/
theorem unitNodes_eq_ok {codec : Codec} {h : HierarchyGraph} {u : ClassUnit}
    {nodes : List FlowNode} : unitNodes codec h u = .ok nodes ↔
      ∃ d, codec.decode u.name u.bytes = .ok d ∧
        List.Forall₂ (fun m n => methodNode h d m = .ok n) d.methods nodes := by
  unfold unitNodes
  cases hd : codec.decode u.name u.bytes with
  | error e => simp
  | ok d =>
    have hmapM : d.methods.mapM (methodNode h d) = .ok nodes ↔
        List.Forall₂ (fun m n => methodNode h d m = .ok n) d.methods nodes := mapM_eq_ok
    simp only [Except.ok.injEq, exists_eq_left', ← hmapM]
    cases d.methods.mapM (methodNode h d) with
    | error e => simp
    | ok found => simp

theorem mem_unitNodes {codec : Codec} {h : HierarchyGraph} {u : ClassUnit}
    {nodes : List FlowNode} {n : FlowNode} (hnodes : unitNodes codec h u = .ok nodes)
    (hn : n ∈ nodes) :
    ∃ d m, codec.decode u.name u.bytes = .ok d ∧ m ∈ d.methods ∧ methodNode h d m = .ok n := by
  obtain ⟨d, hd, hall⟩ := unitNodes_eq_ok.mp hnodes
  obtain ⟨m, hm, hmn⟩ := mem_of_forall₂ hall hn
  exact ⟨d, m, hd, hm, hmn⟩

theorem node?_foldl_addUnit {codec : Codec} {h : HierarchyGraph} {units : List ClassUnit}
    {g : FlowGraph} {caller : MethodRef} {n : FlowNode}
    (hnode : (units.foldl (fun g u => g.addUnit u.name (unitNodes codec h u)) g).node? caller =
      some n) :
    g.node? caller = some n ∨
      ∃ u ∈ units, ∃ nodes, unitNodes codec h u = .ok nodes ∧ n ∈ nodes ∧ n.method = caller := by
  induction units generalizing g with
  | nil => exact .inl hnode
  | cons u units ih =>
    rcases ih hnode with hg | ⟨v, hv, hnodes⟩
    · rcases node?_addUnit hg with hnodes | hg
      · exact .inr ⟨u, List.mem_cons_self, hnodes⟩
      · exact .inl hg
    · exact .inr ⟨v, List.mem_cons_of_mem _ hv, hnodes⟩

/-- Every node of the call graph is that of a method of a unit of the project. -/
theorem node?_ofStack {stack : LayerStack} {codec : Codec} {h : HierarchyGraph}
    {caller : MethodRef} {n : FlowNode} (hnode : (ofStack stack codec h).node? caller = some n) :
    n.method = caller ∧ ∃ u d m, u ∈ stack.unitNames.toList.filterMap stack.unit? ∧
      codec.decode u.name u.bytes = .ok d ∧ m ∈ d.methods ∧ methodNode h d m = .ok n := by
  rcases node?_foldl_addUnit hnode with hempty | ⟨u, hu, nodes, hnodes, hn, hcaller⟩
  · simp [empty, node?] at hempty
  · obtain ⟨d, m, hd, hm, hmn⟩ := mem_unitNodes hnodes hn
    exact ⟨hcaller, u, d, m, hu, hd, hm, hmn⟩

theorem methodNode_eq_ok {h : HierarchyGraph} {d : ClassDecl} {m : MethodDecl} {n : FlowNode}
    (hn : methodNode h d m = .ok n) : n.method = ⟨d.name, m.name, m.descriptor⟩ ∧
      methodCode d m = .ok (n.instructions, n.handlers) := by
  unfold methodNode at hn
  split at hn
  · cases hn
  · rename_i instructions handlers hcode
    cases hn
    exact ⟨rfl, hcode⟩

/-- The edges of an instruction come from where it stands. -/
theorem mem_instructionCalls {h : HierarchyGraph} {caller : MethodRef} {i : Instruction}
    {e : CallEdge} (he : e ∈ instructionCalls h caller i) :
    e.caller = caller ∧ e.offset = i.offset := by
  unfold instructionCalls at he
  split at he
  · unfold callEdges at he
    grind
  · cases he

/-- The instructions of a node start at different offsets, and its calls are theirs. -/
theorem methodNode_calls {h : HierarchyGraph} {d : ClassDecl} {m : MethodDecl} {n : FlowNode}
    (hn : methodNode h d m = .ok n) :
    (n.instructions.map (·.offset)).Nodup ∧
      n.calls = n.instructions.flatMap (instructionCalls h n.method) := by
  unfold methodNode methodCode at hn
  cases hbody : m.body with
  | none =>
    rw [hbody] at hn
    cases hn
    exact ⟨List.nodup_nil, rfl⟩
  | some body =>
    cases hins : d.instructions body with
    | error e =>
      simp only [hbody, hins] at hn
      cases hn
    | ok instructions =>
      simp only [hbody, hins] at hn
      cases hn
      exact ⟨(Code.decode_tiles hins).nodup, rfl⟩

end FlowGraph

end ClassAtlas
