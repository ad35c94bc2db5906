import ClassAtlas.Proofs.Calls.Callers
import Mathlib.Data.List.Induction

/-!
Looking methods up in a call graph. The methods of a unit are entered together or not at all: where
the code of one of them cannot be decoded, its failure is the answer for all of them.
-/

namespace ClassAtlas

namespace ClassDecl

variable {d : ClassDecl}

/-- A method has no code, or code that can be decoded. -/
def Readable (d : ClassDecl) (m : MethodDecl) : Prop :=
  ∃ code, FlowGraph.methodCode d m = .ok code

/-- Of the methods whose code cannot be decoded, the first fails for this cause. -/
def FailsFirst (d : ClassDecl) (cause : DecodeError) : Prop :=
  ∃ before m after, d.methods = before ++ m :: after ∧ (∀ x ∈ before, d.Readable x) ∧
    FlowGraph.methodCode d m = .error cause

theorem exists_failsFirst_iff :
    (∃ cause, d.FailsFirst cause) ↔ ¬ ∀ m ∈ d.methods, d.Readable m := by
  constructor
  · rintro ⟨cause, before, m, after, hmethods, -, hm⟩ hall
    obtain ⟨code, hcode⟩ := hall m (by simp [hmethods])
    rw [hm] at hcode
    cases hcode
  · intro hsome
    cases hcodes : d.methods.mapM (FlowGraph.methodCode d) with
    | error cause => exact ⟨cause, mapM_eq_error.mp hcodes⟩
    | ok codes =>
      refine absurd (fun m hm => ?_) hsome
      obtain ⟨code, -, hcode⟩ := mem_of_forall₂ (mapM_eq_ok.mp hcodes).flip hm
      exact ⟨code, hcode⟩

end ClassDecl

namespace FlowGraph

variable {codec : Codec} {h : HierarchyGraph} {stack : LayerStack} {d : ClassDecl}

theorem methodNode_eq_error {m : MethodDecl} {e : DecodeError} :
    methodNode h d m = .error e ↔ methodCode d m = .error e := by
  unfold methodNode
  cases methodCode d m <;> simp

theorem exists_methodNode {m : MethodDecl} :
    (∃ n, methodNode h d m = .ok n) ↔ d.Readable m := by
  unfold methodNode ClassDecl.Readable
  cases methodCode d m <;> simp

/-- A decoded unit fails with the first of its methods that does. -/
theorem unitNodes_eq_error {u : ClassUnit} {e : Error}
    (hd : codec.decode u.name u.bytes = .ok d) :
    unitNodes codec h u = .error e ↔ ∃ cause, d.FailsFirst cause ∧ e = .decode cause := by
  have hfirst (cause : DecodeError) : d.methods.mapM (methodNode h d) = .error cause ↔
      d.FailsFirst cause := by
    rw [mapM_eq_error, ClassDecl.FailsFirst]
    simp only [exists_methodNode, methodNode_eq_error]
  simp only [← hfirst, unitNodes, hd]
  cases d.methods.mapM (methodNode h d) with
  | error cause => simp [eq_comm]
  | ok nodes => simp

theorem getElem?_foldl_insert_isSome {nodes : List FlowNode} {ref : MethodRef}
    (m : Std.TreeMap MethodRef FlowNode) (href : ref ∈ nodes.map FlowNode.method) :
    (nodes.foldl (fun m n => m.insert n.method n) m)[ref]?.isSome := by
  induction nodes using List.reverseRecOn with
  | nil => cases href
  | append_singleton nodes n ih =>
    rw [List.foldl_append, List.foldl_cons, List.foldl_nil, Std.TreeMap.getElem?_insert]
    split
    · rfl
    · rename_i hne
      rw [List.map_append, List.mem_append] at href
      rcases href with href | href
      · exact ih href
      · rw [List.map_singleton, List.mem_singleton] at href
        exact absurd (Std.LawfulEqOrd.compare_eq_iff_eq.mpr href.symm) hne

/-- A decoded unit has a failure in the graph if one of its methods has. -/
theorem failure?_declared {e : Error} (hd : stack.Declares codec d.name d) :
    (ofStack stack codec h).failure? d.name = some e ↔
      ∃ cause, d.FailsFirst cause ∧ e = .decode cause := by
  obtain ⟨u, hu, hname, hdecode⟩ := hd.exists_unit
  rw [← hname, failure?_ofStack_iff hu]
  exact unitNodes_eq_error hdecode

/-- The methods of a decoded unit that has no failure are found. -/
theorem node?_declared {m : MethodDecl} (hd : stack.Declares codec d.name d)
    (hfailure : (ofStack stack codec h).failure? d.name = none) (hm : m ∈ d.methods) :
    ((ofStack stack codec h).node? ⟨d.name, m.name, m.descriptor⟩).isSome := by
  obtain ⟨n, hn, hmethod⟩ := exists_declaredNode hfailure hd hm
  rw [node?, (ofStack_collected stack codec h).nodes, ← hmethod]
  exact getElem?_foldl_insert_isSome ∅ (List.mem_map_of_mem hn)

theorem flowFor_eq (g : FlowGraph) (ref : MethodRef) : g.flowFor ref =
    match g.failure? ref.owner with
    | some e => .error e.retained
    | none => .ok (g.node? ref) :=
  rfl

/-- Looking up a method of a decoded unit has an answer exactly if the code of every method of the
unit can be decoded. One method whose code cannot be hides all of them: the answer is its failure,
whichever method was asked for. Else what the unit declares is found. -/
theorem flowFor_of_decoded (h : HierarchyGraph) (hd : stack.Declares codec d.name d)
    (name descriptor : String) :
    let answer := (ofStack stack codec h).flowFor ⟨d.name, name, descriptor⟩
    ((∃ found, answer = .ok found) ↔ ∀ m ∈ d.methods, d.Readable m) ∧
    (∀ e, answer = .error e ↔ ∃ cause, d.FailsFirst cause ∧ e = .decode cause) ∧
    (∀ found, answer = .ok found →
      (∃ m ∈ d.methods, m.name = name ∧ m.descriptor = descriptor) → found.isSome) ∧
    (codec.KeepsNames → ∀ n, answer = .ok (some n) →
      ∃ m ∈ d.methods, m.name = name ∧ m.descriptor = descriptor ∧ methodNode h d m = .ok n) := by
  intro answer
  have hanswer : answer = _ := flowFor_eq _ _
  have hfailed {e : Error} := failure?_declared (h := h) (e := e) hd
  cases hfailure : (ofStack stack codec h).failure? d.name with
  | some e =>
    obtain ⟨cause, hfirst, rfl⟩ := hfailed.mp hfailure
    simp only [hfailure, Error.retained] at hanswer
    have hunreadable := ClassDecl.exists_failsFirst_iff.mp ⟨cause, hfirst⟩
    refine ⟨iff_of_false (by simp [hanswer]) hunreadable, fun e => ?_, by simp [hanswer],
      by simp [hanswer]⟩
    rw [hanswer, ← hfailed, hfailure, Except.error.injEq, Option.some_inj]
  | none =>
    simp only [hfailure] at hanswer
    have hreadable : ∀ m ∈ d.methods, d.Readable m := by
      by_contra hunreadable
      obtain ⟨cause, hfirst⟩ := ClassDecl.exists_failsFirst_iff.mpr hunreadable
      rw [hfailed.mpr ⟨cause, hfirst, rfl⟩] at hfailure
      cases hfailure
    refine ⟨iff_of_true ⟨_, hanswer⟩ hreadable, fun e => ?_, ?_, ?_⟩
    · rw [← hfailed, hfailure]
      exact iff_of_false (by simp [hanswer]) (by simp)
    · rintro found hfound ⟨m, hm, rfl, rfl⟩
      rw [hanswer, Except.ok.injEq] at hfound
      rw [← hfound]
      exact node?_declared hd hfailure hm
    · intro hcodec n hn
      rw [hanswer, Except.ok.injEq] at hn
      obtain ⟨href, u, d', m, hu, hd', hm, hmn⟩ := node?_ofStack hn
      have hmethod := (methodNode_eq_ok hmn).1.symm.trans href
      obtain ⟨hname, rfl, rfl⟩ : d'.name = d.name ∧ m.name = name ∧ m.descriptor = descriptor := by
        simpa using hmethod
      -- both declarations are of the unit of this name
      have hunit : u.name = d.name := (hcodec _ _ _ hd').symm.trans hname
      have hdecode := LayerStack.decode?_projectUnit codec hu
      rw [hunit, hd.2, ← hunit, hd', Option.some_inj, Except.ok.injEq] at hdecode
      subst hdecode
      exact ⟨m, hm, rfl, rfl, hmn⟩

end FlowGraph

/-!
The second unit of the stack declares two methods. The code of `n` is no instruction, and so nothing
is said about `m` either, whose code can be decoded.
-/

namespace HalfDecoded

theorem decoded : ((stack.decode? ClassFile.codec "B").bind Except.toOption).map (fun d =>
    (d.name, d.methods.map fun m => (m.name, m.descriptor, (FlowGraph.methodCode d m).isOk))) =
    some ("B", [("m", "()V", true), ("n", "()V", false)]) := by
  decide +kernel

theorem sibling_hidden : ∃ d m n cause, stack.Declares ClassFile.codec "B" d ∧
    d.methods = [m, n] ∧ m.name = "m" ∧ m.descriptor = "()V" ∧ d.Readable m ∧
    FlowGraph.methodCode d n = .error cause ∧
    flow.flowFor ⟨"B", "m", "()V"⟩ = .error (.decode cause) := by
  obtain ⟨d, hd, hparts⟩ := Option.map_eq_some_iff.mp decoded
  obtain ⟨result, hresult, hd⟩ := Option.bind_eq_some_iff.mp hd
  obtain ⟨hname, hmethods⟩ := Prod.mk.injEq .. ▸ hparts
  obtain ⟨m, rest, hrest, hm, hn⟩ := List.map_eq_cons_iff.mp hmethods
  obtain ⟨n, rfl, hn⟩ := List.map_eq_singleton_iff.mp hn
  simp only [Prod.mk.injEq] at hm hn
  obtain ⟨hm, hdescriptor, hok⟩ := hm
  have hdeclares : stack.Declares ClassFile.codec "B" d := by
    refine ⟨by decide +kernel, hresult.trans ?_⟩
    cases result with
    | error e => cases hd
    | ok d' =>
      cases hd
      rfl
  have hreadable : d.Readable m := by
    cases hcode : FlowGraph.methodCode d m with
    | error cause => simp [hcode, Except.isOk, Except.toBool] at hok
    | ok code => exact ⟨code, hcode⟩
  cases hcause : FlowGraph.methodCode d n with
  | ok code => simp [hcause, Except.isOk, Except.toBool] at hn
  | error cause =>
    have hfirst : d.FailsFirst cause := ⟨[m], n, [], hrest, by simpa using hreadable, hcause⟩
    obtain ⟨-, hanswer, -⟩ := FlowGraph.flowFor_of_decoded
      (.ofStack stack ClassFile.codec) (hname ▸ hdeclares) "m" "()V"
    refine ⟨d, m, n, cause, hdeclares, hrest, hm, hdescriptor, hreadable, hcause, ?_⟩
    rw [← hname]
    exact (hanswer _).mpr ⟨cause, hfirst, rfl⟩

end HalfDecoded

end ClassAtlas
