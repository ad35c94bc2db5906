import ClassAtlas.Proofs.Hierarchy.Construction
import Mathlib.Logic.Relation

/-!
What can be reached in an inheritance graph. A search collects exactly the names behind one step or
more from its start; upwards, the steps are the declared parents, and downwards they are the same
steps the other way round, so the two directions agree, on cycles as elsewhere.
-/

namespace ClassAtlas

namespace Reach

variable {β : Type} {m : Std.TreeMap String β} {out : β → List String} {start : String}

/-- The entry of a name leads to another. -/
def Step (m : Std.TreeMap String β) (out : β → List String) (a b : String) : Prop :=
  ∃ entry, m[a]? = some entry ∧ b ∈ out entry

theorem step_iff {a b : String} : Step m out a b ↔ b ∈ (m[a]?.map out).getD [] := by
  rw [Step]
  cases m[a]? with
  | none => simp
  | some entry => simp

/-- What a search knows at any time: what it has come to, and what waits, lies behind the start, and
every step from what it has come to leads to something of these. -/
structure Spreading (m : Std.TreeMap String β) (out : β → List String) (start : String)
    (seen : Std.TreeSet String) (pending : List String) : Prop where
  reached : ∀ x ∈ seen, x ≠ start ∧ Relation.TransGen (Step m out) start x
  waiting : ∀ x ∈ pending, Relation.TransGen (Step m out) start x
  closed : ∀ a b, a = start ∨ a ∈ seen → Step m out a b → b = start ∨ b ∈ seen ∨ b ∈ pending

variable {seen : Std.TreeSet String} {name : String} {pending : List String}

theorem Spreading.init (m : Std.TreeMap String β) (out : β → List String) (start : String) :
    Spreading m out start ∅ ((m[start]?.map out).getD []) where
  reached x hx := absurd hx (Std.TreeSet.not_mem_emptyc)
  waiting x hx := .single (step_iff.mpr hx)
  closed a b ha hstep := by
    rcases ha with rfl | ha
    · exact .inr (.inr (step_iff.mp hstep))
    · exact absurd ha (Std.TreeSet.not_mem_emptyc)

/-- The start and what was seen before can be passed over. -/
theorem Spreading.pass (h : Spreading m out start seen (name :: pending))
    (hname : name = start ∨ name ∈ seen) : Spreading m out start seen pending where
  reached := h.reached
  waiting x hx := h.waiting x (List.mem_cons_of_mem _ hx)
  closed a b ha hstep := by
    rcases h.closed a b ha hstep with hb | hb | hb
    · exact .inl hb
    · exact .inr (.inl hb)
    · rcases List.mem_cons.mp hb with rfl | hb
      · exact hname.imp_right .inl
      · exact .inr (.inr hb)

/-- Coming to a name, and noting what it leads to. -/
theorem Spreading.enter (h : Spreading m out start seen (name :: pending)) (hname : name ≠ start) :
    Spreading m out start (seen.insert name) ((m[name]?.map out).getD [] ++ pending) := by
  have hbehind : Relation.TransGen (Step m out) start name := h.waiting name List.mem_cons_self
  have hmem {x : String} : x ∈ seen.insert name ↔ name = x ∨ x ∈ seen := by
    rw [Std.TreeSet.mem_insert, Std.LawfulEqOrd.compare_eq_iff_eq]
  constructor
  case reached =>
    intro x hx
    rcases hmem.mp hx with rfl | hx
    · exact ⟨hname, hbehind⟩
    · exact h.reached x hx
  case waiting =>
    intro x hx
    rcases List.mem_append.mp hx with hx | hx
    · exact hbehind.tail (step_iff.mpr hx)
    · exact h.waiting x (List.mem_cons_of_mem _ hx)
  case closed =>
    intro a b ha hstep
    have hold (ha : a = start ∨ a ∈ seen) : b = start ∨ b ∈ seen.insert name ∨
        b ∈ (m[name]?.map out).getD [] ++ pending := by
      rcases h.closed a b ha hstep with hb | hb | hb
      · exact .inl hb
      · exact .inr (.inl (hmem.mpr (.inr hb)))
      · rcases List.mem_cons.mp hb with rfl | hb
        · exact .inr (.inl (hmem.mpr (.inl rfl)))
        · exact .inr (.inr (List.mem_append_right _ hb))
    rcases ha with ha | ha
    · exact hold (.inl ha)
    · rcases hmem.mp ha with rfl | ha
      · exact .inr (.inr (List.mem_append_left _ (step_iff.mp hstep)))
      · exact hold (.inr ha)

theorem Spreading.run (h : Spreading m out start seen pending) :
    Spreading m out start (spread m out start seen pending) [] := by
  fun_induction spread m out start seen pending with
  | case1 seen => exact h
  | case2 seen name pending hname ih => exact ih (h.pass (.inl (eq_of_beq hname)))
  | case3 seen name pending hname hs ih =>
    exact ih (h.pass (.inr (Std.TreeSet.contains_iff_mem.mp hs)))
  | case4 seen name pending hname hs hm ih =>
    have henter := h.enter (by simpa using hname)
    rw [hm] at henter
    exact ih henter
  | case5 seen name pending hname hs entry hm ih =>
    have henter := h.enter (by simpa using hname)
    rw [hm] at henter
    exact ih henter

/-- A search collects what lies one step or more behind its start, the start itself left out. -/
theorem mem_reach {x : String} :
    x ∈ reach m out start ↔ x ≠ start ∧ Relation.TransGen (Step m out) start x := by
  have h : Spreading m out start (reach m out start) [] := (Spreading.init m out start).run
  have hcollected {y : String} (hy : Relation.TransGen (Step m out) start y) :
      y = start ∨ y ∈ reach m out start := by
    induction hy with
    | single hstep => exact (h.closed _ _ (.inl rfl) hstep).imp_right (·.resolve_right (by simp))
    | tail _ hstep ih => exact (h.closed _ _ ih hstep).imp_right (·.resolve_right (by simp))
  exact ⟨h.reached x, fun ⟨hne, hx⟩ => (hcollected hx).resolve_left hne⟩

end Reach

namespace HierarchyGraph

variable {g : HierarchyGraph} {stack : LayerStack} {codec : Codec}

/-- A type of the graph declares a parent, as its superclass or as one of its interfaces. -/
def Inherits (g : HierarchyGraph) (child parent : String) : Prop :=
  ∃ n, g.node? child = some n ∧ parent ∈ n.parents

/-- What is asked of a type is answered by its failure, if it has one. -/
theorem check_bind {α : Type} (g : HierarchyGraph) (name : String) (rest : Except Error α) :
    (g.check name >>= fun _ => rest) = match g.failure? name with
      | some e => .error e.retained
      | none => rest := by
  unfold check
  cases g.failure? name <;> rfl

/-- The supertypes of a type that could be decoded are what lies above it. -/
theorem allParents_of_decoded {y : String} (h : g.failure? y = none) :
    ∃ above, g.allParents y = .ok above ∧
      ∀ x, x ∈ above ↔ x ≠ y ∧ Relation.TransGen g.Inherits y x := by
  refine ⟨Reach.reach g.nodes TypeNode.parents y, ?_, fun x => Reach.mem_reach⟩
  rw [allParents, check, h]
  rfl

/-- The index of children is the declared parents, turned round. -/
theorem mem_directChildren_ofStack (p c : String) :
    c ∈ (ofStack stack codec).directChildren p ↔ (ofStack stack codec).Inherits c p := by
  obtain ⟨all, -, h⟩ := ofStack_explored stack codec
  exact h.children p c

/-- Declared parents and the index of children are the same steps in opposite directions. -/
theorem children_step {a b : String} :
    Reach.Step (ofStack stack codec).children Std.TreeSet.toList a b ↔
      (ofStack stack codec).Inherits b a := by
  rw [← mem_directChildren_ofStack, Reach.step_iff, directChildren, Std.TreeMap.getD_eq_getD_getElem?]
  cases (ofStack stack codec).children[a]? with
  | none => simp
  | some types => rfl

theorem allChildren_of_decoded {x : String} (h : (ofStack stack codec).failure? x = none) :
    ∃ below, (ofStack stack codec).allChildren x = .ok below ∧
      ∀ y, y ∈ below ↔ y ≠ x ∧ Relation.TransGen (ofStack stack codec).Inherits y x := by
  refine ⟨Reach.reach (ofStack stack codec).children Std.TreeSet.toList x, ?_, fun y => ?_⟩
  · rw [allChildren, check, h]
    rfl
  · have hswap : Reach.Step (ofStack stack codec).children Std.TreeSet.toList =
        Function.swap (ofStack stack codec).Inherits := by
      funext a b
      exact propext children_step
    rw [Reach.mem_reach, hswap, Relation.transGen_swap]

/-- Supertypes and subtypes are the two ends of chains of declared parents. -/
theorem allParents_dual {x y : String} (hx : (ofStack stack codec).failure? x = none)
    (hy : (ofStack stack codec).failure? y = none) :
    ∃ above below, (ofStack stack codec).allParents y = .ok above ∧
      (ofStack stack codec).allChildren x = .ok below ∧ (x ∈ above ↔ y ∈ below) ∧
      (x ∈ above ↔ x ≠ y ∧ Relation.TransGen (ofStack stack codec).Inherits y x) := by
  obtain ⟨above, habove, hmem⟩ := allParents_of_decoded hy
  obtain ⟨below, hbelow, hmem'⟩ := allChildren_of_decoded hx
  refine ⟨above, below, habove, hbelow, ?_, hmem x⟩
  rw [hmem, hmem', ne_comm]

end HierarchyGraph

/-!
Two types that each extend the other, one of which also implements an interface that is not there.
-/

namespace Cycle

def type (name superName : String) (interfaces : List String) : ClassDecl where
  minor := 0
  major := 52
  access := ⟨0⟩
  name := name
  superName := some superName
  interfaces := interfaces
  fields := []
  methods := []
  attributes := []
  pool := Pool.empty

def codec : Codec where
  decode name _ :=
    if name = "Egg" then .ok (type "Egg" "Hen" ["Gone"]) else .ok (type name "Egg" [])
  encode _ _ _ := .ok []

def stack : LayerStack where
  project := [⟨"app", .primary, .ofList [("Egg", []), ("Hen", [])], ∅, ∅⟩]
  runtime := .empty "runtime" .runtime

def hierarchy : HierarchyGraph := .ofStack stack codec

theorem nodes : hierarchy.nodes.toList =
    [("Egg", .ofDecl (type "Egg" "Hen" ["Gone"]) .primary),
      ("Hen", .ofDecl (type "Hen" "Egg" []) .primary)] := by
  decide +kernel

theorem hen_inherits : hierarchy.Inherits "Hen" "Egg" := by
  refine ⟨.ofDecl (type "Hen" "Egg" []) .primary, ?_, by decide⟩
  rw [HierarchyGraph.node?_eq_some_iff, nodes]
  simp

theorem egg_inherits : hierarchy.Inherits "Egg" "Gone" := by
  refine ⟨.ofDecl (type "Egg" "Hen" ["Gone"]) .primary, ?_, by decide⟩
  rw [HierarchyGraph.node?_eq_some_iff, nodes]
  simp

theorem gone_above_hen : hierarchy.failure? "Gone" = none ∧ hierarchy.failure? "Hen" = none ∧
    ∃ above below, hierarchy.allParents "Hen" = .ok above ∧
      hierarchy.allChildren "Gone" = .ok below ∧ "Gone" ∈ above ∧ "Hen" ∈ below := by
  have hfailures : (hierarchy.failure? "Gone").isNone = true ∧
      (hierarchy.failure? "Hen").isNone = true := by decide +kernel
  have hgone : hierarchy.failure? "Gone" = none := by simpa using hfailures.1
  have hhen : hierarchy.failure? "Hen" = none := by simpa using hfailures.2
  obtain ⟨above, below, habove, hbelow, hdual, hmem⟩ :=
    HierarchyGraph.allParents_dual hgone hhen
  have hin : "Gone" ∈ above :=
    hmem.mpr ⟨by decide, Relation.TransGen.tail (.single hen_inherits) egg_inherits⟩
  exact ⟨hgone, hhen, above, below, habove, hbelow, hin, hdual.mp hin⟩

end Cycle

end ClassAtlas
