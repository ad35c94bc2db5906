import ClassAtlas.Proofs.Hierarchy.Chain
import ClassAtlas.Proofs.Hierarchy.Waves

/-!
Which type a method name means. It is the first on the superclass chain that declares the method; if
none does, it is the nearest interface that declares it, counted in declarations from the chain.
-/

namespace ClassAtlas

open Relation (ReflTransGen TransGen)

namespace HierarchyGraph

variable {g : HierarchyGraph} {owner name descriptor : String}

/-- A type of the graph declares a method. -/
def Declares (g : HierarchyGraph) (type name descriptor : String) : Prop :=
  ∃ n, g.node? type = some n ∧ ∃ m ∈ n.methods, m.name = name ∧ m.descriptor = descriptor

/-- A type of the graph declares an interface, as one that it implements or extends. -/
def Implements (g : HierarchyGraph) (type interface : String) : Prop :=
  ∃ n, g.node? type = some n ∧ interface ∈ n.interfaces

/-- An interface is come to from a type over so many declarations of interfaces. -/
inductive Offers (g : HierarchyGraph) (type : String) : Nat → String → Prop
  | declared {interface : String} (h : g.Implements type interface) : Offers g type 1 interface
  | inherited {k : Nat} {interface super : String} (h : Offers g type k interface)
      (hsuper : g.Implements interface super) : Offers g type (k + 1) super

/-- The interfaces that so many further declarations lead to from those that the types of a
superclass chain declare, in the order of the declarations. -/
def interfaceWave (g : HierarchyGraph) (owner : String) (k : Nat) : List String :=
  Reach.wave g.nodes TypeNode.interfaces
    (((g.superclassChain owner).filterMap g.node?).flatMap TypeNode.interfaces) k

theorem Implements.inherits {type interface : String} (h : g.Implements type interface) :
    g.Inherits type interface := by
  obtain ⟨n, hn, hinterface⟩ := h
  exact ⟨n, hn, List.mem_append_right _ hinterface⟩

theorem Offers.pos {type interface : String} {k : Nat} (h : g.Offers type k interface) : 0 < k := by
  cases h <;> omega

theorem Offers.inherits {type interface : String} {k : Nat} (h : g.Offers type k interface) :
    TransGen g.Inherits type interface := by
  induction h with
  | declared h => exact .single h.inherits
  | inherited _ hsuper ih => exact ih.tail hsuper.inherits

theorem declares_iff {type : String} : g.Declares type name descriptor ↔
    Reach.passes g.nodes (·.declares name descriptor) type = true := by
  simp only [Declares, Reach.passes, Option.any_eq_true, TypeNode.declares_iff]
  rfl

theorem mem_ways_iff {a b : String} :
    b ∈ Reach.ways g.nodes TypeNode.interfaces a ↔ g.Implements a b :=
  Reach.step_iff.symm

/-- The waves hold what the types of the chain come to over declarations of interfaces. -/
theorem mem_interfaceWave {k : Nat} {x : String} :
    x ∈ g.interfaceWave owner k ↔ ∃ c ∈ g.superclassChain owner, g.Offers c (k + 1) x := by
  induction k generalizing x with
  | zero =>
    constructor
    · intro hx
      obtain ⟨n, hn, hinterface⟩ := List.mem_flatMap.mp hx
      obtain ⟨c, hc, hnode⟩ := List.mem_filterMap.mp hn
      exact ⟨c, hc, .declared ⟨n, hnode, hinterface⟩⟩
    · rintro ⟨c, hc, hoffers⟩
      cases hoffers with
      | declared h =>
        obtain ⟨n, hnode, hinterface⟩ := h
        exact List.mem_flatMap.mpr ⟨n, List.mem_filterMap.mpr ⟨c, hc, hnode⟩, hinterface⟩
      | inherited h _ => exact absurd h.pos (Nat.lt_irrefl 0)
  | succ k ih =>
    have hwave : x ∈ g.interfaceWave owner (k + 1) ↔
        ∃ y ∈ g.interfaceWave owner k, g.Implements y x := by
      simp only [interfaceWave, Reach.wave, List.mem_flatMap, mem_ways_iff]
    rw [hwave]
    constructor
    · rintro ⟨y, hy, himplements⟩
      obtain ⟨c, hc, hoffers⟩ := ih.mp hy
      exact ⟨c, hc, hoffers.inherited himplements⟩
    · rintro ⟨c, hc, hoffers⟩
      cases hoffers with
      | inherited h himplements => exact ⟨_, ih.mpr ⟨c, hc, h⟩, himplements⟩

/-- The superclass chain is searched first, then the interfaces. -/
theorem resolveMethod_eq (g : HierarchyGraph) (owner name descriptor : String) :
    g.resolveMethod owner name descriptor =
      ((g.superclassChain owner).find? (Reach.passes g.nodes (·.declares name descriptor))).or
        (Reach.nearest? g.nodes TypeNode.interfaces (·.declares name descriptor) ∅
          (g.interfaceWave owner 0)) := by
  have hpasses : (fun c => (g.node? c).any fun n => n.declares name descriptor) =
      Reach.passes g.nodes (·.declares name descriptor) := rfl
  unfold resolveMethod
  simp only [hpasses]
  cases (g.superclassChain owner).find? (Reach.passes g.nodes (·.declares name descriptor)) with
  | none => rfl
  | some found => rfl

theorem resolveMethod_on_chain {before after : List String} {type : String}
    (hsplit : g.superclassChain owner = before ++ type :: after)
    (hdeclares : g.Declares type name descriptor)
    (hbefore : ∀ c ∈ before, ¬ g.Declares c name descriptor) :
    g.resolveMethod owner name descriptor = some type := by
  have hfind : (g.superclassChain owner).find?
      (Reach.passes g.nodes (·.declares name descriptor)) = some type := by
    apply List.find?_eq_some_iff_append.mpr
    refine ⟨declares_iff.mp hdeclares, before, after, hsplit, ?_⟩
    intro c hc
    simpa using mt declares_iff.mpr (hbefore c hc)
  rw [resolveMethod_eq, hfind, Option.some_or]

theorem resolveMethod_off_chain
    (hchain : ∀ c ∈ g.superclassChain owner, ¬ g.Declares c name descriptor) :
    g.resolveMethod owner name descriptor =
      Reach.nearest? g.nodes TypeNode.interfaces (·.declares name descriptor) ∅
        (g.interfaceWave owner 0) := by
  have hfind : (g.superclassChain owner).find?
      (Reach.passes g.nodes (·.declares name descriptor)) = none := by
    apply List.find?_eq_none.mpr
    intro c hc hpasses
    exact hchain c hc (declares_iff.mpr hpasses)
  rw [resolveMethod_eq, hfind, Option.none_or]

/-- Off the chain, a method means the first interface that declares it, in the order of the waves. -/
theorem resolveMethod_eq_some_iff {interface : String}
    (hchain : ∀ c ∈ g.superclassChain owner, ¬ g.Declares c name descriptor) :
    g.resolveMethod owner name descriptor = some interface ↔
      ∃ k before after, g.interfaceWave owner k = before ++ interface :: after ∧
        g.Declares interface name descriptor ∧
        (∀ j ∈ before, ¬ g.Declares j name descriptor) ∧
        ∀ i < k, ∀ j ∈ g.interfaceWave owner i, ¬ g.Declares j name descriptor := by
  rw [resolveMethod_off_chain hchain, Reach.nearest?_eq_some_iff]
  simp only [List.find?_eq_some_iff_append, Bool.not_eq_true', ← Bool.not_eq_true, declares_iff]
  constructor
  · rintro ⟨k, ⟨hpasses, before, after, hsplit, hbefore⟩, hfails⟩
    exact ⟨k, before, after, hsplit, hpasses, hbefore, hfails⟩
  · rintro ⟨k, before, after, hsplit, hpasses, hbefore, hfails⟩
    exact ⟨k, ⟨hpasses, before, after, hsplit, hbefore⟩, hfails⟩

theorem resolveMethod_eq_none_iff
    (hchain : ∀ c ∈ g.superclassChain owner, ¬ g.Declares c name descriptor) :
    g.resolveMethod owner name descriptor = none ↔
      ∀ c ∈ g.superclassChain owner, ∀ k i, g.Offers c k i → ¬ g.Declares i name descriptor := by
  rw [resolveMethod_off_chain hchain, Reach.nearest?_eq_none_iff]
  simp only [← Bool.not_eq_true, ← declares_iff]
  constructor
  · intro hfails c hc k i hoffers
    obtain ⟨k, rfl⟩ := Nat.exists_eq_add_one.mpr hoffers.pos
    exact hfails k i (mem_interfaceWave.mpr ⟨c, hc, hoffers⟩)
  · intro hfails k i hi
    obtain ⟨c, hc, hoffers⟩ := mem_interfaceWave.mp hi
    exact hfails c hc (k + 1) i hoffers

/-- What is found off the chain is a nearest interface among those that declare the method. -/
theorem resolveMethod_nearest {interface : String}
    (hchain : ∀ c ∈ g.superclassChain owner, ¬ g.Declares c name descriptor)
    (hfound : g.resolveMethod owner name descriptor = some interface) :
    g.Declares interface name descriptor ∧ ∃ c ∈ g.superclassChain owner, ∃ k,
      g.Offers c k interface ∧ ∀ c' ∈ g.superclassChain owner, ∀ k' j, g.Offers c' k' j →
        g.Declares j name descriptor → k ≤ k' := by
  obtain ⟨k, before, after, hsplit, hdeclares, -, hfails⟩ :=
    (resolveMethod_eq_some_iff hchain).mp hfound
  have hmem : interface ∈ g.interfaceWave owner k := by simp [hsplit]
  obtain ⟨c, hc, hoffers⟩ := mem_interfaceWave.mp hmem
  refine ⟨hdeclares, c, hc, k + 1, hoffers, ?_⟩
  intro c' hc' k' j hj hdeclares'
  obtain ⟨k', rfl⟩ := Nat.exists_eq_add_one.mpr hj.pos
  by_contra hlt
  exact hfails k' (by omega) j (mem_interfaceWave.mpr ⟨c', hc', hj⟩) hdeclares'

/-- A type that a method of a type means is that type or above it. -/
theorem inherits_of_resolveMethod {type : String}
    (hfound : g.resolveMethod owner name descriptor = some type) :
    g.contains owner = true ∧ g.Declares type name descriptor ∧
      ReflTransGen g.Inherits owner type := by
  have habove {c : String} (hc : c ∈ g.superclassChain owner) :
      g.contains owner = true ∧ ReflTransGen g.Inherits owner c := by
    obtain ⟨hcontains, hreached⟩ := mem_superclassChain.mp hc
    refine ⟨?_, ReflTransGen.mono (fun _ _ => Extends.inherits) _ _ hreached⟩
    rcases hreached.cases_head with rfl | ⟨_, ⟨n, hn, _⟩, _⟩
    · exact hcontains
    · rw [contains_iff, hn]
      rfl
  cases hfind : (g.superclassChain owner).find?
      (Reach.passes g.nodes (·.declares name descriptor)) with
  | some c =>
    rw [resolveMethod_eq, hfind, Option.some_or, Option.some_inj] at hfound
    subst hfound
    obtain ⟨howner, hreached⟩ := habove (List.mem_of_find?_eq_some hfind)
    exact ⟨howner, declares_iff.mpr (List.find?_some hfind), hreached⟩
  | none =>
    have hchain : ∀ c ∈ g.superclassChain owner, ¬ g.Declares c name descriptor := by
      intro c hc hdeclares
      exact List.find?_eq_none.mp hfind c hc (declares_iff.mp hdeclares)
    obtain ⟨hdeclares, c, hc, k, hoffers, -⟩ := resolveMethod_nearest hchain hfound
    obtain ⟨howner, hreached⟩ := habove hc
    exact ⟨howner, hdeclares, hreached.trans hoffers.inherits.to_reflTransGen⟩

/-- A type that could be decoded is a subtype of all that is above it. -/
theorem isSubtype_of_inherits {child parent : String} (hdecoded : g.failure? child = none)
    (habove : ReflTransGen g.Inherits child parent) : g.isSubtype child parent = true := by
  by_cases hsame : child = parent
  · simp [isSubtype, hsame]
  · obtain ⟨above, hparents, hmem⟩ := allParents_of_decoded hdecoded
    have hparent : parent ∈ above := by
      rcases Relation.reflTransGen_iff_eq_or_transGen.mp habove with heq | htrans
      · exact absurd heq.symm hsame
      · exact (hmem parent).mpr ⟨Ne.symm hsame, htrans⟩
    simp [isSubtype, hparents, hparent]

/-- A method means the first type on the superclass chain that declares it. If none does, it means a
nearest one among the interfaces that the chain leads to, and nothing only if none of these declares
it. What it means is always a type, and the owner is a subtype of it. -/
theorem resolveMethod_exact (stack : LayerStack) (codec : Codec)
    (owner name descriptor : String) :
    let g := ofStack stack codec
    let chain := g.superclassChain owner
    let found := g.resolveMethod owner name descriptor
    (∀ before type after, chain = before ++ type :: after → g.Declares type name descriptor →
      (∀ c ∈ before, ¬ g.Declares c name descriptor) → found = some type) ∧
    ((∀ c ∈ chain, ¬ g.Declares c name descriptor) →
      (found = none ↔ ∀ c ∈ chain, ∀ k i, g.Offers c k i → ¬ g.Declares i name descriptor) ∧
      ∀ i, found = some i → g.Declares i name descriptor ∧ ∃ c ∈ chain, ∃ k, g.Offers c k i ∧
        ∀ c' ∈ chain, ∀ k' j, g.Offers c' k' j → g.Declares j name descriptor → k ≤ k') ∧
    ∀ type, found = some type → g.contains type = true ∧ g.isSubtype owner type = true := by
  intro g chain found
  refine ⟨fun before type after => resolveMethod_on_chain, fun hchain => ?_, fun type hfound => ?_⟩
  · exact ⟨resolveMethod_eq_none_iff hchain, fun i => resolveMethod_nearest hchain⟩
  · obtain ⟨howner, ⟨n, hn, _⟩, habove⟩ := inherits_of_resolveMethod hfound
    obtain ⟨n', hn'⟩ := Option.isSome_iff_exists.mp (contains_iff.mp howner)
    refine ⟨contains_iff.mpr (by rw [hn]; rfl), isSubtype_of_inherits ?_ habove⟩
    exact (ofStack_node? hn').2

end HierarchyGraph

end ClassAtlas
