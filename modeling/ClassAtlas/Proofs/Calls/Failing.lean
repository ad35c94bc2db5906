import ClassAtlas.Proofs.Calls.Lookup
import ClassAtlas.Proofs.ClassFile.Failing
import ClassAtlas.Proofs.Code.Failing
import ClassAtlas.Proofs.Hierarchy.Reachability

/-!
Whose failures the graphs record. A name has a failure in the inheritance graph if its unit is
refused, and in the call graph also if the code of one of its methods is. With the codec of class
files the failure always says the name that it is recorded under, and a question about the type is
answered by it.
-/

namespace ClassAtlas

open Reader

/-- The unit of a name is refused for the cause. -/
def LayerStack.Refuses (stack : LayerStack) (name : String) (cause : DecodeError) : Prop :=
  ∃ u, stack.unit? name = some u ∧ ClassFile.decode name u.bytes = .error cause

/-- The unit of a name is declared, and the first of its methods whose code is refused is refused for
the cause. -/
def LayerStack.RefusesCode (stack : LayerStack) (name : String) (cause : DecodeError) : Prop :=
  ∃ u d, stack.unit? name = some u ∧ ClassFile.decode name u.bytes = .ok d ∧ d.FailsFirst cause

theorem ClassFile.codec_eq_error {name : String} {bytes : Bytes} {e : Error} :
    codec.decode name bytes = .error e ↔
      ∃ cause, decode name bytes = .error cause ∧ e = .decode cause := by
  simp only [codec]
  cases decode name bytes with
  | ok d => simp
  | error cause => simp [eq_comm]

theorem ClassFile.codec_eq_ok {name : String} {bytes : Bytes} {d : ClassDecl} :
    codec.decode name bytes = .ok d ↔ decode name bytes = .ok d := by
  simp only [codec]
  cases decode name bytes <;> simp

/-- The code of a method is refused at a place in it, under the name of the class. -/
theorem ClassDecl.FailsFirst.located {d : ClassDecl} {cause : DecodeError}
    (h : d.FailsFirst cause) : Located d.name cause := by
  obtain ⟨before, m, after, -, -, hm⟩ := h
  unfold FlowGraph.methodCode at hm
  split at hm
  · cases hm
  · split at hm
    · cases hm
    · rename_i hcode
      cases hm
      exact Code.decode_error hcode

namespace LayerStack

variable {stack : LayerStack} {name : String} {cause : DecodeError}

theorem Refuses.subject (h : stack.Refuses name cause) : cause.subject = name := by
  obtain ⟨u, -, hdecode⟩ := h
  exact ClassFile.decode_subject hdecode

theorem RefusesCode.located (h : stack.RefusesCode name cause) : Located name cause := by
  obtain ⟨u, d, -, hdecode, hfirst⟩ := h
  have hname : d.name = name :=
    ClassFile.codec_keepsNames name u.bytes d (ClassFile.codec_eq_ok.mpr hdecode)
  rw [← hname]
  exact hfirst.located

theorem RefusesCode.subject (h : stack.RefusesCode name cause) : cause.subject = name := by
  obtain ⟨reason, position, rfl⟩ := h.located
  rfl

theorem decode?_eq_error {e : Error} :
    stack.decode? ClassFile.codec name = some (.error e) ↔
      ∃ cause, stack.Refuses name cause ∧ e = .decode cause := by
  rw [decode?, Option.map_eq_some_iff]
  constructor
  · rintro ⟨u, hu, he⟩
    rw [unit?_name hu] at he
    obtain ⟨cause, hcause, rfl⟩ := ClassFile.codec_eq_error.mp he
    exact ⟨cause, ⟨u, hu, hcause⟩, rfl⟩
  · rintro ⟨cause, ⟨u, hu, hcause⟩, rfl⟩
    refine ⟨u, hu, ?_⟩
    rw [unit?_name hu]
    exact ClassFile.codec_eq_error.mpr ⟨cause, hcause, rfl⟩

end LayerStack

namespace HierarchyGraph

variable {stack : LayerStack} {codec : Codec} {name : String} {e : Error}

theorem failure?_ofStack_iff : (ofStack stack codec).failure? name = some e ↔
    stack.World codec name ∧ stack.decode? codec name = some (.error e) := by
  rw [world_iff]
  constructor
  · intro he
    exact ⟨.inr (Option.isSome_iff_exists.mpr ⟨e, he⟩), ofStack_failed he⟩
  · rintro ⟨hn | hf, hdecode⟩
    · -- a type has been decoded
      obtain ⟨n, hn⟩ := Option.isSome_iff_exists.mp hn
      obtain ⟨d, l, hd, -, -⟩ := ofStack_decoded hn
      rw [hdecode] at hd
      cases hd
    · obtain ⟨e', he'⟩ := Option.isSome_iff_exists.mp hf
      have hdecode' := ofStack_failed he'
      rw [hdecode] at hdecode'
      cases hdecode'
      exact he'

theorem checked_eq_error {α : Type} {g : HierarchyGraph} {a : α} :
    (g.check name >>= fun _ => .ok a) = .error e ↔
      ∃ x, g.failure? name = some x ∧ e = x.retained := by
  rw [check_bind]
  cases g.failure? name with
  | none => simp
  | some x => simp [eq_comm]

/-- Questions about a type fail with what is recorded of it, if that is kept as it is. -/
theorem walks_fail_iff {g : HierarchyGraph}
    (hkept : ∀ x, g.failure? name = some x → x.retained = x) :
    (g.allParents name = .error e ↔ g.failure? name = some e) ∧
    (g.allChildren name = .error e ↔ g.failure? name = some e) ∧
    (g.family name = .error e ↔ g.failure? name = some e) := by
  have hfailure : (∃ x, g.failure? name = some x ∧ e = x.retained) ↔
      g.failure? name = some e := by
    constructor
    · rintro ⟨x, hx, rfl⟩
      rw [hkept x hx, hx]
    · exact fun he => ⟨e, he, (hkept e he).symm⟩
  refine ⟨checked_eq_error.trans hfailure, checked_eq_error.trans hfailure, ?_⟩
  unfold family
  dsimp only
  split
  · exact checked_eq_error.trans hfailure
  · exact checked_eq_error.trans hfailure

end HierarchyGraph

namespace FlowGraph

variable {stack : LayerStack} {h : HierarchyGraph} {name : String} {e : Error}

theorem failure?_classFile_iff : (ofStack stack ClassFile.codec h).failure? name = some e ↔
    name ∈ stack.unitNames ∧
      ∃ cause, (stack.Refuses name cause ∨ stack.RefusesCode name cause) ∧ e = .decode cause := by
  have hunit {u : ClassUnit} (hu : stack.unit? name = some u) (hname : u.name = name) :
      unitNodes ClassFile.codec h u = .error e ↔
        ∃ cause, (stack.Refuses name cause ∨ stack.RefusesCode name cause) ∧
          e = .decode cause := by
    subst hname
    constructor
    · intro hnodes
      cases hd : ClassFile.codec.decode u.name u.bytes with
      | error x =>
        rw [unitNodes, hd, Except.error.injEq] at hnodes
        subst hnodes
        obtain ⟨cause, hcause, rfl⟩ := ClassFile.codec_eq_error.mp hd
        exact ⟨cause, .inl ⟨u, hu, hcause⟩, rfl⟩
      | ok d =>
        obtain ⟨cause, hfirst, rfl⟩ := (unitNodes_eq_error hd).mp hnodes
        exact ⟨cause, .inr ⟨u, d, hu, ClassFile.codec_eq_ok.mp hd, hfirst⟩, rfl⟩
    · rintro ⟨cause, ⟨v, hv, hcause⟩ | ⟨v, d, hv, hd, hfirst⟩, rfl⟩
      · rw [hu] at hv
        cases hv
        rw [unitNodes, ClassFile.codec_eq_error.mpr ⟨cause, hcause, rfl⟩]
      · rw [hu] at hv
        cases hv
        exact (unitNodes_eq_error (ClassFile.codec_eq_ok.mpr hd)).mpr ⟨cause, hfirst, rfl⟩
  constructor
  · intro he
    obtain ⟨u, hu, rfl, -⟩ := failure?_isSome_iff.mp (Option.isSome_iff_exists.mpr ⟨e, he⟩)
    obtain ⟨hname, hfound⟩ := LayerStack.mem_projectUnits.mp hu
    exact ⟨hname, (hunit hfound rfl).mp ((failure?_ofStack_iff hu).mp he)⟩
  · rintro ⟨hname, hcause⟩
    obtain ⟨u, hu, rfl⟩ := LayerStack.exists_projectUnit hname
    have hfound := (LayerStack.mem_projectUnits.mp hu).2
    exact (failure?_ofStack_iff hu).mpr ((hunit hfound rfl).mpr hcause)

end FlowGraph

/-- With the codec of class files, failures name the unit that they belong to. A class file is
refused under the name that it is read for, at a position in its bytes or for what is inside it, or
because it declares another class. The inheritance graph records the refusals of units, the call graph
also those of the code of methods, and each is recorded under its own name. Questions about a type
fail exactly with what is recorded. -/
theorem ClassFile.failures_named (stack : LayerStack) (h : HierarchyGraph) :
    let g := HierarchyGraph.ofStack stack codec
    let flow := FlowGraph.ofStack stack codec h
    (∀ name bytes e, parse name bytes = .error e → e.subject = name ∧
      ∃ cause, e = cause.relabel name ∧ (Located name cause ∨ Inside cause)) ∧
    (∀ name bytes e, decode name bytes = .error e ↔ parse name bytes = .error e ∨
      ∃ d, parse name bytes = .ok d ∧ d.name ≠ name ∧ e = ⟨name, .declares d.name⟩) ∧
    (∀ name cause, stack.RefusesCode name cause → Located name cause) ∧
    (∀ name e, g.failure? name = some e ↔ stack.World codec name ∧
      ∃ cause, stack.Refuses name cause ∧ e = .decode cause) ∧
    (∀ name e, flow.failure? name = some e ↔ name ∈ stack.unitNames ∧
      ∃ cause, (stack.Refuses name cause ∨ stack.RefusesCode name cause) ∧ e = .decode cause) ∧
    (∀ name e, g.failure? name = some e ∨ flow.failure? name = some e →
      ∃ cause, e = .decode cause ∧ cause.subject = name) ∧
    ∀ name e, (g.allParents name = .error e ↔ g.failure? name = some e) ∧
      (g.allChildren name = .error e ↔ g.failure? name = some e) ∧
      (g.family name = .error e ↔ g.failure? name = some e) := by
  intro g flow
  have hrefused (name : String) (e : Error) : g.failure? name = some e ↔
      stack.World codec name ∧ ∃ cause, stack.Refuses name cause ∧ e = .decode cause := by
    rw [HierarchyGraph.failure?_ofStack_iff, LayerStack.decode?_eq_error]
  refine ⟨fun name bytes e => parse_error, fun name bytes e => decode_eq_error,
    fun name cause => LayerStack.RefusesCode.located, hrefused,
    fun name e => FlowGraph.failure?_classFile_iff, ?_, fun name e => ?_⟩
  · rintro name e (he | he)
    · obtain ⟨-, cause, hcause, rfl⟩ := (hrefused name e).mp he
      exact ⟨cause, rfl, hcause.subject⟩
    · obtain ⟨-, cause, hcause | hcause, rfl⟩ := FlowGraph.failure?_classFile_iff.mp he
      · exact ⟨cause, rfl, hcause.subject⟩
      · exact ⟨cause, rfl, hcause.subject⟩
  · refine HierarchyGraph.walks_fail_iff fun x hx => ?_
    obtain ⟨-, cause, -, rfl⟩ := (hrefused name x).mp hx
    rfl

/-!
Three units: the first is whole, the second has a method whose code is no instruction, and the third
ends in its first number.
-/

namespace CutOff

def stack : LayerStack where
  project := [⟨"app", .primary,
    .ofList [("A", HalfDecoded.caller), ("B", HalfDecoded.broken), ("C", [0xCA])], ∅, ∅⟩]
  runtime := .empty "runtime" .runtime

def hierarchy : HierarchyGraph := .ofStack stack ClassFile.codec

def flow : FlowGraph := .ofStack stack ClassFile.codec hierarchy

/-- The failure of the third unit. -/
def cause : DecodeError := ⟨"C", .located (.endOfData 4) 0⟩

theorem failures_own : hierarchy.failure? "C" = some (.decode cause) ∧
    hierarchy.allParents "C" = .error (.decode cause) ∧
    hierarchy.failure? "B" = none ∧ ∃ own, flow.failure? "B" = some (.decode own) ∧
      own.subject = "B" ∧ stack.RefusesCode "B" own := by
  obtain ⟨-, -, -, hrecorded, hflow, hnamed, hwalks⟩ := ClassFile.failures_named stack hierarchy
  have hworld : stack.World ClassFile.codec "C" := .unit (by decide +kernel)
  have hrefused : stack.Refuses "C" cause := ⟨⟨"C", [0xCA]⟩, by decide +kernel, by rfl⟩
  have hfailure : hierarchy.failure? "C" = some (.decode cause) :=
    (hrecorded "C" _).mpr ⟨hworld, cause, hrefused, rfl⟩
  have hdecoded : (hierarchy.failure? "B").isNone = true := by decide +kernel
  have hhalf : (flow.failure? "B").isSome = true := by decide +kernel
  obtain ⟨e, he⟩ := Option.isSome_iff_exists.mp hhalf
  obtain ⟨own, rfl, hsubject⟩ := hnamed "B" e (.inr he)
  obtain ⟨hunit, own', hown, heq⟩ := (hflow "B" _).mp he
  cases heq
  have hnone := Option.isNone_iff_eq_none.mp hdecoded
  refine ⟨hfailure, (hwalks "C" _).1.mpr hfailure, hnone, own, he, hsubject, hown.resolve_left ?_⟩
  intro hrefuses
  have hfailed := (hrecorded "B" _).mpr ⟨.unit hunit, own, hrefuses, rfl⟩
  rw [show (HierarchyGraph.ofStack stack ClassFile.codec).failure? "B" = none from hnone] at hfailed
  cases hfailed

end CutOff

end ClassAtlas
