import ClassAtlas.Proofs.Calls.Dispatch
import ClassAtlas.Proofs.Hierarchy.Methods

/-!
Interfaces that redeclare a method of an interface above them. The search among interfaces goes by
the order in which they are declared and not by which of them extends the other, so a method can mean
that of the more general interface. It does so only where that interface is declared on a way of its
own, no longer than those to the other.
-/

namespace ClassAtlas

open Relation (TransGen)

namespace HierarchyGraph

variable {g : HierarchyGraph} {owner name descriptor i j : String}

/-- Among the interfaces of a superclass chain, one comes before another: it is in an earlier wave,
or farther to the front of the same. -/
def ComesBefore (g : HierarchyGraph) (owner i j : String) : Prop :=
  ∃ k before after, g.interfaceWave owner k = before ++ i :: after ∧ j ∉ before ∧
    ∀ d < k, j ∉ g.interfaceWave owner d

/-- An interface is come to from a type over declarations of other interfaces than a given one. -/
def OffersWithout (g : HierarchyGraph) (without type interface : String) : Prop :=
  TransGen (fun a b => g.Implements a b ∧ b ≠ without) type interface

/-- An interface is come to without all that are in no wave before its own. -/
theorem offersWithout_of_wave {k : Nat} (hi : i ∈ g.interfaceWave owner k) (hne : i ≠ j)
    (hbefore : ∀ d < k, j ∉ g.interfaceWave owner d) :
    ∃ c ∈ g.superclassChain owner, g.OffersWithout j c i := by
  induction k generalizing i with
  | zero =>
    obtain ⟨c, hc, hoffers⟩ := mem_interfaceWave.mp hi
    cases hoffers with
    | declared h => exact ⟨c, hc, .single ⟨h, hne⟩⟩
    | inherited h _ => exact absurd h.pos (Nat.lt_irrefl 0)
  | succ k ih =>
    obtain ⟨x, hx, hstep⟩ := List.mem_flatMap.mp hi
    have himplements : g.Implements x i := mem_ways_iff.mp hstep
    have hother : x ≠ j := by
      rintro rfl
      exact hbefore k (by omega) hx
    have hearlier : ∀ d < k, j ∉ g.interfaceWave owner d := by
      intro d hd
      exact hbefore d (by omega)
    obtain ⟨c, hc, hreached⟩ := ih hx hother hearlier
    exact ⟨c, hc, hreached.tail ⟨himplements, hne⟩⟩

/-- A method that no type on the superclass chain declares means an interface that comes before all
others that declare the method. So where one of these extends it, it is also declared on a way that
does not lead through that one. -/
theorem resolveMethod_precedes
    (hchain : ∀ c ∈ g.superclassChain owner, ¬ g.Declares c name descriptor)
    (hfound : g.resolveMethod owner name descriptor = some i) :
    ∀ j, j ≠ i → g.Declares j name descriptor →
      g.ComesBefore owner i j ∧ ∃ c ∈ g.superclassChain owner, g.OffersWithout j c i := by
  intro j hne hdeclares
  obtain ⟨k, before, after, hsplit, _, hfirst, hfails⟩ :=
    (resolveMethod_eq_some_iff hchain).mp hfound
  have hbefore : ∀ d < k, j ∉ g.interfaceWave owner d := by
    intro d hd hj
    exact hfails d hd j hj hdeclares
  have hfront : j ∉ before := by
    intro hj
    exact hfirst j hj hdeclares
  have hmem : i ∈ g.interfaceWave owner k := by simp [hsplit]
  exact ⟨⟨k, before, after, hsplit, hfront, hbefore⟩,
    offersWithout_of_wave hmem hne.symm hbefore⟩

end HierarchyGraph

namespace Diamond

theorem middle_inherits : hierarchy.Inherits "Middle" "Base" :=
  ⟨_, node?_of_mem (d := middle) (by simp [types]), by decide⟩

theorem base_above_middle : ∃ above, hierarchy.allParents "Middle" = .ok above ∧ "Base" ∈ above := by
  have hfailure : (hierarchy.failure? "Middle").isNone = true := by decide +kernel
  have hdecoded : hierarchy.failure? "Middle" = none := by simpa using hfailure
  obtain ⟨above, habove, hmem⟩ := HierarchyGraph.allParents_of_decoded hdecoded
  exact ⟨above, habove, (hmem "Base").mpr ⟨by decide, .single middle_inherits⟩⟩

theorem middle_declares : hierarchy.Declares "Middle" "run" "()V" :=
  ⟨_, node?_of_mem (d := middle) (by simp [types]), by decide⟩

theorem leaf_chain : hierarchy.superclassChain "Leaf" = ["Leaf"] :=
  chain_of_mem (d := leaf) (by simp [types])

theorem leaf_offers : hierarchy.Offers "Leaf" 1 "Middle" :=
  .declared ⟨_, node?_of_mem (d := leaf) (by simp [types]), by decide⟩

theorem leaf_undeclared :
    ∀ c ∈ hierarchy.superclassChain "Leaf", ¬ hierarchy.Declares c "run" "()V" := by
  intro c hc hdeclares
  rw [leaf_chain, List.mem_singleton] at hc
  subst hc
  obtain ⟨n, hn, hrun⟩ := hdeclares
  have hleaf : hierarchy.node? "Leaf" = some (.ofDecl leaf .primary) :=
    node?_of_mem (d := leaf) (by simp [types])
  rw [hleaf, Option.some_inj] at hn
  subst hn
  exact absurd hrun (by decide)

/-- The method of `Leaf` means that of `Base`, although `Middle` redeclares it. -/
theorem base_overridden : hierarchy.resolveMethod "Leaf" "run" "()V" = some "Base" ∧
    (∀ c ∈ hierarchy.superclassChain "Leaf", ¬ hierarchy.Declares c "run" "()V") ∧
    hierarchy.Declares "Middle" "run" "()V" ∧
    (∃ c ∈ hierarchy.superclassChain "Leaf", hierarchy.Offers c 1 "Middle") ∧
    ∃ above, hierarchy.allParents "Middle" = .ok above ∧ "Base" ∈ above :=
  ⟨resolve_leaf, leaf_undeclared, middle_declares, ⟨"Leaf", by simp [leaf_chain], leaf_offers⟩,
    base_above_middle⟩

theorem base_comes_first :
    (∀ c ∈ hierarchy.superclassChain "Leaf", ¬ hierarchy.Declares c "run" "()V") ∧
    hierarchy.resolveMethod "Leaf" "run" "()V" = some "Base" ∧
    hierarchy.Declares "Middle" "run" "()V" ∧
    hierarchy.ComesBefore "Leaf" "Base" "Middle" ∧
    ∃ c ∈ hierarchy.superclassChain "Leaf", hierarchy.OffersWithout "Middle" c "Base" := by
  have hdeclares : hierarchy.Declares "Middle" "run" "()V" := middle_declares
  exact ⟨leaf_undeclared, resolve_leaf, hdeclares,
    HierarchyGraph.resolveMethod_precedes leaf_undeclared resolve_leaf "Middle" (by decide)
      hdeclares⟩

end Diamond

end ClassAtlas
