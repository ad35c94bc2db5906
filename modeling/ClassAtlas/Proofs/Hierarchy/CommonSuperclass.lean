import ClassAtlas.Proofs.Hierarchy.Chain

/-!
Common superclasses. The first type of one chain that is on the other is the least common superclass,
because what comes behind it on its chain is what is above it. The least one is the same from either
side, unless superclasses go round in a cycle.
-/

namespace ClassAtlas

open Relation (ReflTransGen TransGen)

namespace HierarchyGraph

variable {g : HierarchyGraph} {a b c : String}

/-- A type is the least common superclass of two types: it is on both superclass chains, and its own
chain has all that are on both. -/
structure IsLeastCommon (g : HierarchyGraph) (a b c : String) : Prop where
  left : c ∈ g.superclassChain a
  right : c ∈ g.superclassChain b
  least : ∀ x ∈ g.superclassChain a, x ∈ g.superclassChain b → x ∈ g.superclassChain c

theorem IsLeastCommon.symm (h : g.IsLeastCommon a b c) : g.IsLeastCommon b a c where
  left := h.right
  right := h.left
  least x hb ha := h.least x ha hb

/-- The first type on a chain that is also on another is the least common superclass. -/
theorem isLeastCommon_of_first
    (hfirst : (g.superclassChain b).find? (g.superclassChain a).contains = some c) :
    g.IsLeastCommon a b c := by
  obtain ⟨hleft, before, after, hsplit, hbefore⟩ := List.find?_eq_some_iff_append.mp hfirst
  refine ⟨by simpa using hleft, List.mem_of_find?_eq_some hfirst, ?_⟩
  intro x ha hb
  have habove : ReflTransGen g.Extends c x := by
    rw [hsplit, List.mem_append, List.mem_cons] at hb
    rcases hb with hb | rfl | hb
    · exact absurd ha (by simpa using hbefore x hb)
    · exact .refl
    · exact (extends_of_behind hsplit hb).to_reflTransGen
  exact mem_superclassChain.mpr ⟨(mem_superclassChain.mp ha).1, habove⟩

/-- Without cycles, two types have only one least common superclass. -/
theorem IsLeastCommon.unique {d : String} (hacyclic : ∀ x, ¬ TransGen g.Extends x x)
    (hc : g.IsLeastCommon a b c) (hd : g.IsLeastCommon a b d) : c = d := by
  have hup : ReflTransGen g.Extends c d :=
    (mem_superclassChain.mp (hc.least d hd.left hd.right)).2
  have hdown : ReflTransGen g.Extends d c :=
    (mem_superclassChain.mp (hd.least c hc.left hc.right)).2
  rcases Relation.reflTransGen_iff_eq_or_transGen.mp hup with heq | hup
  · exact heq.symm
  · exact absurd (hup.trans_left hdown) (hacyclic c)

/-- Superclasses that come lower and lower do not go round. -/
theorem acyclic_of_rank (rank : String → Nat) (hrank : ∀ a b, g.Extends a b → rank b < rank a)
    (x : String) : ¬ TransGen g.Extends x x := by
  have hlower {a b : String} (h : TransGen g.Extends a b) : rank b < rank a := by
    induction h with
    | single hstep => exact hrank _ _ hstep
    | tail _ hstep ih => exact (hrank _ _ hstep).trans ih
  intro hcycle
  exact Nat.lt_irrefl _ (hlower hcycle)

theorem commonSuperclass_eq (hne : a ≠ b) (ha : g.contains a = true) (hb : g.contains b = true)
    (hclass : g.isInterface a = false) (hclass' : g.isInterface b = false) :
    g.commonSuperclass a b =
      some (((g.superclassChain b).find? (g.superclassChain a).contains).getD Name.object) := by
  obtain ⟨n, hn⟩ := Option.isSome_iff_exists.mp (contains_iff.mp ha)
  obtain ⟨n', hn'⟩ := Option.isSome_iff_exists.mp (contains_iff.mp hb)
  have hkind : n.isInterface = false := by simpa [isInterface, hn] using hclass
  have hkind' : n'.isInterface = false := by simpa [isInterface, hn'] using hclass'
  simp [commonSuperclass, hne, hn, hn', hkind, hkind']

/-- The common superclass of two classes is the same from either side. It is the least type that is
on both superclass chains, if there is one, and the root otherwise. -/
theorem commonSuperclass_least (hacyclic : ∀ x, ¬ TransGen g.Extends x x) (hne : a ≠ b)
    (ha : g.contains a = true) (hb : g.contains b = true)
    (hclass : g.isInterface a = false) (hclass' : g.isInterface b = false) :
    ∃ c, g.commonSuperclass a b = some c ∧ g.commonSuperclass b a = some c ∧
      ((∃ x ∈ g.superclassChain a, x ∈ g.superclassChain b) →
        c ∈ g.superclassChain a ∧ c ∈ g.superclassChain b ∧
          ∀ x ∈ g.superclassChain a, x ∈ g.superclassChain b → x ∈ g.superclassChain c) ∧
      ((∀ x ∈ g.superclassChain a, x ∉ g.superclassChain b) → c = Name.object) := by
  rw [commonSuperclass_eq hne ha hb hclass hclass',
    commonSuperclass_eq hne.symm hb ha hclass' hclass]
  cases hright : (g.superclassChain b).find? (g.superclassChain a).contains with
  | none =>
    have hapart : ∀ x ∈ g.superclassChain a, x ∉ g.superclassChain b := by
      intro x hx hx'
      exact List.find?_eq_none.mp hright x hx' (by simpa using hx)
    have hleft : (g.superclassChain a).find? (g.superclassChain b).contains = none := by
      apply List.find?_eq_none.mpr
      intro x hx hx'
      exact hapart x hx (by simpa using hx')
    rw [hleft]
    refine ⟨Name.object, rfl, rfl, ?_, fun _ => rfl⟩
    rintro ⟨x, hx, hx'⟩
    exact absurd hx' (hapart x hx)
  | some c =>
    have hc : g.IsLeastCommon a b c := isLeastCommon_of_first hright
    have hshared : ((g.superclassChain a).find? (g.superclassChain b).contains).isSome :=
      List.find?_isSome.mpr ⟨c, hc.left, by simpa using hc.right⟩
    obtain ⟨d, hd⟩ := Option.isSome_iff_exists.mp hshared
    have hsame : d = c := (isLeastCommon_of_first hd).symm.unique hacyclic hc
    rw [hd, hsame]
    refine ⟨c, rfl, rfl, fun _ => ⟨hc.left, hc.right, hc.least⟩, ?_⟩
    intro hapart
    exact absurd hc.right (hapart c hc.left)

end HierarchyGraph

/-!
Two classes at different distances from their common superclass, which has a superclass that is not
there.
-/

namespace Litter

def types : List ClassDecl :=
  [Cycle.type "Animal" "Gone" [], Cycle.type "Cat" "Animal" [], Cycle.type "Dog" "Animal" [],
    Cycle.type "Kitten" "Cat" []]

def codec : Codec where
  decode name _ :=
    match types.find? fun d => d.name == name with
    | some d => .ok d
    | none => .error (.unsupported name)
  encode _ _ _ := .ok []

def stack : LayerStack where
  project := [⟨"app", .primary, .ofList (types.map fun d => (d.name, [])), ∅, ∅⟩]
  runtime := .empty "runtime" .runtime

def hierarchy : HierarchyGraph := .ofStack stack codec

def rank (name : String) : Nat :=
  ["Gone", "Animal", "Cat", "Dog", "Kitten"].idxOf name

theorem nodes : hierarchy.nodes.toList = types.map fun d => (d.name, .ofDecl d .primary) := by
  decide +kernel

theorem extends_rank (a b : String) (h : hierarchy.Extends a b) : rank b < rank a := by
  have hall : ∀ d ∈ types, ∀ super, d.superName = some super → rank super < rank d.name := by
    simp only [← Option.mem_def]
    decide
  obtain ⟨n, hn, hsuper⟩ := h
  rw [HierarchyGraph.node?_eq_some_iff, nodes] at hn
  obtain ⟨d, hd, heq⟩ := List.mem_map.mp hn
  cases heq
  exact hall d hd b hsuper

theorem acyclic (x : String) : ¬ TransGen hierarchy.Extends x x :=
  HierarchyGraph.acyclic_of_rank rank extends_rank x

theorem animal_common : (∀ x, ¬ TransGen hierarchy.Extends x x) ∧
    hierarchy.contains "Kitten" = true ∧ hierarchy.contains "Dog" = true ∧
    hierarchy.isInterface "Kitten" = false ∧ hierarchy.isInterface "Dog" = false ∧
    hierarchy.commonSuperclass "Kitten" "Dog" = some "Animal" ∧
    hierarchy.commonSuperclass "Dog" "Kitten" = some "Animal" := by
  have hkitten : hierarchy.superclassChain "Kitten" = ["Kitten", "Cat", "Animal"] := by
    decide +kernel
  have hdog : hierarchy.superclassChain "Dog" = ["Dog", "Animal"] := by decide +kernel
  have hnodes : hierarchy.contains "Kitten" = true ∧ hierarchy.contains "Dog" = true := by
    decide +kernel
  have hclasses : hierarchy.isInterface "Kitten" = false ∧ hierarchy.isInterface "Dog" = false := by
    decide +kernel
  obtain ⟨c, hc, hc', hshared, -⟩ := HierarchyGraph.commonSuperclass_least acyclic (by decide)
    hnodes.1 hnodes.2 hclasses.1 hclasses.2
  rw [hkitten, hdog] at hshared
  obtain ⟨hleft, hright, -⟩ := hshared ⟨"Animal", by decide, by decide⟩
  have hanimal : c = "Animal" := by
    simp only [List.mem_cons, List.not_mem_nil, or_false] at hleft hright
    rcases hright with rfl | rfl
    · exact absurd hleft (by decide)
    · rfl
  subst hanimal
  exact ⟨acyclic, hnodes.1, hnodes.2, hclasses.1, hclasses.2, hc, hc'⟩

end Litter

end ClassAtlas
