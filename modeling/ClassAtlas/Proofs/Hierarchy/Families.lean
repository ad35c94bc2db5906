import ClassAtlas.Proofs.Hierarchy.Reachability

/-!
Families. The types of a project that are tied by inheritance among themselves fall into groups, and
the family of a type is its group: parents and the index of children are the same ties seen from
either end, so it does not matter from which member the search starts. Types of the runtime layer
and parents that are not there tie nothing.
-/

namespace ClassAtlas

namespace HierarchyGraph

open Relation (EqvGen ReflTransGen SymmGen TransGen)

/-- The name is that of a type outside the runtime layer. -/
def IsProject (g : HierarchyGraph) (name : String) : Prop :=
  ∃ n, g.node? name = some n ∧ n.layer ≠ .runtime

/-- One project type declares another as a parent. -/
def Ties (g : HierarchyGraph) (child parent : String) : Prop :=
  g.Inherits child parent ∧ g.IsProject child ∧ g.IsProject parent

/-- Project types that are joined by ties, over others if need be. -/
def Related (g : HierarchyGraph) : String → String → Prop :=
  EqvGen g.Ties

section Search

variable {g : HierarchyGraph}

theorem projectNodes_getElem? (name : String) :
    g.projectNodes[name]? = (g.node? name).filter (·.layer != .runtime) :=
  Std.TreeMap.getElem?_filter'

theorem mem_projectNodes {name : String} : name ∈ g.projectNodes ↔ g.IsProject name := by
  rw [Std.TreeMap.mem_iff_isSome_getElem?, projectNodes_getElem?, IsProject,
    Option.isSome_iff_exists]
  simp only [Option.filter_eq_some_iff, bne_iff_ne]

/-- Where the search goes on from a type: to its parents and its children. -/
def around (g : HierarchyGraph) : Std.TreeMap String (List String) :=
  g.projectNodes.map fun name n => n.parents ++ g.directChildren name

theorem step_around (hindex : ∀ p c, c ∈ g.directChildren p ↔ g.Inherits c p) {a b : String} :
    Reach.Step g.around id a b ↔ g.IsProject a ∧ (g.Inherits a b ∨ g.Inherits b a) := by
  rw [Reach.step_iff, around, Std.TreeMap.getElem?_map, projectNodes_getElem?, Option.map_map]
  cases hn : g.node? a with
  | none => simp [IsProject, hn]
  | some n =>
    have hup : b ∈ n.parents ↔ g.Inherits a b := by simp [Inherits, hn]
    by_cases hlayer : n.layer = .runtime
    · simp [IsProject, hn, hlayer, Option.filter]
    · simp [IsProject, hn, hlayer, hup, hindex, Option.filter]

/-- From project type to project type, a step of the search is a tie. -/
theorem tied_iff (hindex : ∀ p c, c ∈ g.directChildren p ↔ g.Inherits c p) {a b : String} :
    SymmGen g.Ties a b ↔ Reach.Step g.around id a b ∧ g.IsProject b := by
  rw [step_around hindex]
  constructor
  · rintro (⟨hup, ha, hb⟩ | ⟨hup, hb, ha⟩)
    · exact ⟨⟨ha, .inl hup⟩, hb⟩
    · exact ⟨⟨ha, .inr hup⟩, hb⟩
  · rintro ⟨⟨ha, hup | hup⟩, hb⟩
    · exact .inl ⟨hup, ha, hb⟩
    · exact .inr ⟨hup, hb, ha⟩

/-- What a search comes to over steps from project types is tied to its start, if it is a project
type itself. -/
theorem related_iff (hindex : ∀ p c, c ∈ g.directChildren p ↔ g.Inherits c p) {a b : String} :
    g.Related a b ↔ b = a ∨ (TransGen (Reach.Step g.around id) a b ∧ g.IsProject b) := by
  rw [Related, ← EqvGen.reflTransGen_symmGen]
  constructor
  · intro h
    induction h with
    | refl => exact .inl rfl
    | tail _ htied ih =>
      obtain ⟨hstep, hproject⟩ := (tied_iff hindex).mp htied
      rcases ih with rfl | ⟨hreached, _⟩
      · exact .inr ⟨.single hstep, hproject⟩
      · exact .inr ⟨hreached.tail hstep, hproject⟩
  · rintro (rfl | ⟨hreached, hproject⟩)
    · exact .refl
    · induction hreached with
      | single hstep => exact .single ((tied_iff hindex).mpr ⟨hstep, hproject⟩)
      | tail _ hstep ih =>
        have hbefore := ih ((step_around hindex).mp hstep).1
        exact hbefore.tail ((tied_iff hindex).mpr ⟨hstep, hproject⟩)

theorem Related.isProject {a b : String} (h : g.Related a b) (ha : g.IsProject a) :
    g.IsProject b := by
  rw [Related, ← EqvGen.reflTransGen_symmGen] at h
  cases h with
  | refl => exact ha
  | tail _ htied =>
    rcases htied with htied | htied
    · exact htied.2.2
    · exact htied.2.1

/-- The family of a project type is its group. -/
theorem family_of_project (hindex : ∀ p c, c ∈ g.directChildren p ↔ g.Inherits c p) {name : String}
    (hproject : g.IsProject name) (hdecoded : g.failure? name = none) :
    ∃ members, g.family name = .ok members ∧ ∀ m, m ∈ members ↔ g.Related name m := by
  refine ⟨((Reach.reach g.around id name).filter g.projectNodes.contains).insert name, ?_, ?_⟩
  · have hcontains : g.projectNodes.contains name = true :=
      Std.TreeMap.contains_iff_mem.mpr (mem_projectNodes.mpr hproject)
    rw [family, check, hdecoded]
    dsimp only [bind, Except.bind]
    rw [if_pos hcontains]
    rfl
  · intro m
    rw [Std.TreeSet.mem_insert, Std.LawfulEqCmp.compare_eq_iff_eq, Std.TreeSet.mem_filter]
    simp only [Std.TreeSet.get_eq, Std.TreeMap.contains_iff_mem, mem_projectNodes, exists_prop,
      Reach.mem_reach, related_iff hindex]
    constructor
    · rintro (rfl | ⟨⟨_, hreached⟩, hm⟩)
      · exact .inl rfl
      · exact .inr ⟨hreached, hm⟩
    · rintro (rfl | ⟨hreached, hm⟩)
      · exact .inl rfl
      · by_cases hsame : m = name
        · exact .inl hsame.symm
        · exact .inr ⟨⟨hsame, hreached⟩, hm⟩

end Search

variable {stack : LayerStack} {codec : Codec}

theorem IsProject.decoded {name : String} (h : (ofStack stack codec).IsProject name) :
    (ofStack stack codec).failure? name = none := by
  obtain ⟨n, hn, _⟩ := h
  exact (ofStack_node? hn).2

theorem family_ofStack {name : String} (h : (ofStack stack codec).IsProject name) :
    ∃ members, (ofStack stack codec).family name = .ok members ∧
      ∀ m, m ∈ members ↔ (ofStack stack codec).Related name m :=
  family_of_project mem_directChildren_ofStack h h.decoded

/-- Families are the groups into which inheritance among project types divides them: the family of a
project type holds it, and just what is tied to it; the members of a family all have that family;
and any other family is the same or has nothing in common with it. -/
theorem families_partition {name : String} (h : (ofStack stack codec).IsProject name) :
    ∃ members, (ofStack stack codec).family name = .ok members ∧ name ∈ members ∧
      (∀ m ∈ members, (ofStack stack codec).IsProject m) ∧
      (∀ m, m ∈ members ↔ EqvGen (ofStack stack codec).Ties name m) ∧
      (∀ m ∈ members, ∃ same, (ofStack stack codec).family m = .ok same ∧
        same.toList = members.toList) ∧
      ∀ other, (ofStack stack codec).IsProject other →
        ∃ others, (ofStack stack codec).family other = .ok others ∧
          (others.toList = members.toList ∨ ∀ m ∈ others, m ∉ members) := by
  obtain ⟨members, hfamily, hmembers⟩ := family_ofStack h
  -- the families of related types have the same members
  have hagree {other : String} {others : Std.TreeSet String}
      (hrelated : (ofStack stack codec).Related name other)
      (hothers : ∀ m, m ∈ others ↔ (ofStack stack codec).Related other m) :
      others.toList = members.toList := by
    refine Std.TreeSet.equiv_iff_toList_eq.mp (Std.TreeSet.Equiv.of_forall_mem_iff fun m => ?_)
    rw [hothers, hmembers]
    exact ⟨hrelated.trans _ _ _, (hrelated.symm _ _).trans _ _ _⟩
  refine ⟨members, hfamily, (hmembers name).mpr (.refl name),
    fun m hm => ((hmembers m).mp hm).isProject h, hmembers, fun m hm => ?_, fun other hother => ?_⟩
  · have hrelated := (hmembers m).mp hm
    obtain ⟨same, hsame, hmem⟩ := family_ofStack (hrelated.isProject h)
    exact ⟨same, hsame, hagree hrelated hmem⟩
  · obtain ⟨others, hothers, hmem⟩ := family_ofStack hother
    refine ⟨others, hothers, ?_⟩
    by_cases hrelated : (ofStack stack codec).Related name other
    · exact .inl (hagree hrelated hmem)
    · refine .inr fun m hm hm' => hrelated ?_
      exact ((hmembers m).mp hm').trans _ _ _ (((hmem m).mp hm).symm _ _)

end HierarchyGraph

/-!
Two types that each extend the other, and a third one. One of the two has the superclass of the
third as an interface, but that is a runtime type; the other declares the same missing interface as
the third. So the third is in no family with them.
-/

namespace Household

def codec : Codec where
  decode name _ :=
    if name = "Egg" then .ok (Cycle.type "Egg" "Hen" ["Gone"])
    else if name = "Hen" then .ok (Cycle.type "Hen" "Egg" ["Root"])
    else if name = "Fox" then .ok (Cycle.type "Fox" "Root" ["Gone"])
    else .ok { Cycle.type name "" [] with superName := none }
  encode _ _ _ := .ok []

def stack : LayerStack where
  project := [⟨"app", .primary, .ofList [("Egg", []), ("Fox", []), ("Hen", [])], ∅, ∅⟩]
  runtime := ⟨"runtime", .runtime, .ofList [("Root", [])], ∅, ∅⟩

def hierarchy : HierarchyGraph := .ofStack stack codec

def types : List (String × TypeNode) :=
  [("Egg", .ofDecl (Cycle.type "Egg" "Hen" ["Gone"]) .primary),
    ("Fox", .ofDecl (Cycle.type "Fox" "Root" ["Gone"]) .primary),
    ("Hen", .ofDecl (Cycle.type "Hen" "Egg" ["Root"]) .primary),
    ("Root", .ofDecl { Cycle.type "Root" "" [] with superName := none } .runtime)]

theorem nodes : hierarchy.nodes.toList = types := by
  decide +kernel

theorem node?_iff {name : String} {n : TypeNode} :
    hierarchy.node? name = some n ↔ (name, n) ∈ types := by
  rw [HierarchyGraph.node?_eq_some_iff, nodes]

theorem isProject {name : String} {n : TypeNode} (h : (name, n) ∈ types)
    (hlayer : n.layer ≠ .runtime) : hierarchy.IsProject name :=
  ⟨n, node?_iff.mpr h, hlayer⟩

theorem hen_egg : hierarchy.Ties "Hen" "Egg" :=
  ⟨⟨_, node?_iff.mpr (.tail _ (.tail _ (.head _))), by decide⟩,
    isProject (.tail _ (.tail _ (.head _))) (by decide), isProject (.head _) (by decide)⟩

/-- No tie leads out of the two types that extend each other. -/
theorem closed {a b : String} (h : hierarchy.Ties a b) :
    a ∈ ["Egg", "Hen"] ↔ b ∈ ["Egg", "Hen"] := by
  have hall : ∀ x ∈ types, ∀ p ∈ x.2.parents, ∀ y ∈ types, y.1 = p → y.2.layer ≠ .runtime →
      (x.1 ∈ ["Egg", "Hen"] ↔ p ∈ ["Egg", "Hen"]) := by
    decide
  obtain ⟨⟨n, hn, hparent⟩, _, n', hn', hlayer⟩ := h
  exact hall (a, n) (node?_iff.mp hn) b hparent (b, n') (node?_iff.mp hn') rfl hlayer

theorem fox_apart : hierarchy.IsProject "Egg" ∧ hierarchy.IsProject "Fox" ∧
    ∃ members others, hierarchy.family "Egg" = .ok members ∧ "Hen" ∈ members ∧
      hierarchy.family "Fox" = .ok others ∧ "Fox" ∈ others ∧ ∀ m ∈ others, m ∉ members := by
  have hegg : hierarchy.IsProject "Egg" := isProject (.head _) (by decide)
  have hfox : hierarchy.IsProject "Fox" := isProject (.tail _ (.head _)) (by decide)
  obtain ⟨members, hmembers, _, _, hgroup, _, hothers⟩ := HierarchyGraph.families_partition hegg
  obtain ⟨others, hfamily, hsplit⟩ := hothers "Fox" hfox
  obtain ⟨_, hfamily', hin, _⟩ := HierarchyGraph.families_partition hfox
  obtain rfl := Except.ok.inj (hfamily'.symm.trans hfamily)
  refine ⟨hegg, hfox, members, _, hmembers, (hgroup _).mpr (.symm _ _ (.rel _ _ hen_egg)), hfamily,
    hin, hsplit.resolve_left fun hsame => ?_⟩
  rw [← Std.TreeSet.mem_toList, hsame, Std.TreeSet.mem_toList, hgroup] at hin
  have hkept {a b : String} (h : Relation.EqvGen hierarchy.Ties a b) :
      a ∈ ["Egg", "Hen"] ↔ b ∈ ["Egg", "Hen"] := by
    induction h with
    | rel a b h => exact closed h
    | refl a => rfl
    | symm a b _ ih => exact ih.symm
    | trans a b c _ _ ih ih' => exact ih.trans ih'
  exact absurd ((hkept hin).mp (by decide)) (by decide)

end Household

end ClassAtlas
