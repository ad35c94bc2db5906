import ClassAtlas.Proofs.Hierarchy.Reachability

/-!
Dangling parents. The search looks up no parent that it has seen, and has seen nothing but names of
units; so what it notes as dangling are the declared parents that no layer holds, once for every
time that a type declares one, since it comes to no type twice.
-/

namespace ClassAtlas

namespace TypeNode

/-- The ways from a type to its parents, one for every time that it declares one. -/
def edges (n : TypeNode) (name : String) : List HierarchyEdge :=
  n.superName.toList.map (⟨name, ·, .superclass⟩) ++ n.interfaces.map (⟨name, ·, .interface⟩)

/-- The ways to parents that no layer holds. -/
def missing (n : TypeNode) (stack : LayerStack) (name : String) : List HierarchyEdge :=
  (n.edges name).filter fun e => !stack.hasUnit e.parent

theorem child_of_mem_missing {n : TypeNode} {stack : LayerStack} {name : String} {e : HierarchyEdge}
    (h : e ∈ n.missing stack name) : e.child = name := by
  have hedge : e ∈ n.edges name := (List.mem_filter.mp h).1
  simp only [edges, List.mem_append, List.mem_map] at hedge
  rcases hedge with ⟨p, _, rfl⟩ | ⟨p, _, rfl⟩
  · rfl
  · rfl

theorem filter_missing (n : TypeNode) (stack : LayerStack) (name c : String) :
    (n.missing stack name).filter (·.child == c) =
      if name = c then n.missing stack name else [] := by
  split
  · rename_i heq
    refine List.filter_eq_self.mpr fun e he => ?_
    rw [child_of_mem_missing he, heq, beq_self_eq_true]
  · rename_i hne
    refine List.filter_eq_nil_iff.mpr fun e he => ?_
    rw [child_of_mem_missing he, beq_iff_eq]
    exact hne

/-- The ends of the ways to missing parents are those parents, in the order of the declaration. -/
theorem missing_parents (n : TypeNode) (stack : LayerStack) (name : String) :
    (n.missing stack name).map (·.parent) = n.parents.filter fun p => !stack.hasUnit p := by
  have hparents : (n.edges name).map (·.parent) = n.parents := by
    simp only [edges, parents, List.map_append, List.map_map]
    change n.superName.toList.map id ++ n.interfaces.map id = _
    rw [List.map_id, List.map_id]
  rw [← hparents, List.filter_map]
  rfl

end TypeNode

namespace HierarchyGraph

variable {stack : LayerStack} {codec : Codec} {g : HierarchyGraph} {seen : Std.TreeSet String}
  {queue : List String} {name : String}

/-- Names that are found are found once, and had not been seen. -/
theorem discover_new (known : String → Bool) (seen : Std.TreeSet String) (names : List String) :
    (discover known seen names).2.Nodup ∧ ∀ x ∈ (discover known seen names).2, x ∉ seen := by
  induction names generalizing seen with
  | nil => simp [discover]
  | cons name names ih =>
    rw [discover]
    split
    · rename_i h
      obtain ⟨hnodup, hnew⟩ := ih (seen.insert name)
      have hname : name ∉ seen := by
        have hunseen := (Bool.and_eq_true_iff.mp h).1
        rwa [Bool.not_eq_true', ← Bool.not_eq_true, Std.TreeSet.contains_iff_mem] at hunseen
      refine ⟨List.nodup_cons.mpr ⟨fun hmem => hnew name hmem ?_, hnodup⟩, ?_⟩
      · exact Std.TreeSet.mem_insert_self
      · intro x hx
        rcases List.mem_cons.mp hx with rfl | hx
        · exact hname
        · exact fun hseen => hnew x hx (Std.TreeSet.mem_insert.mpr (.inr hseen))
    · exact ih seen

/-- While only names of units have been seen, passing over what was seen changes nothing. -/
theorem Explored.isKnown_eq (h : Explored stack codec g seen queue) :
    isKnown stack seen = stack.hasUnit := by
  funext x
  rw [isKnown]
  cases hseen : seen.contains x with
  | false => rfl
  | true =>
    have hunit := (h.world x (Std.TreeSet.contains_iff_mem.mp hseen)).hasUnit
    rw [hunit, Bool.or_true]

theorem dangling_addType (g : HierarchyGraph) (name : String) (d : ClassDecl) (kind : LayerKind) :
    (g.addType stack.hasUnit name d kind).dangling =
      g.dangling ++ (TypeNode.ofDecl d kind).missing stack name := by
  simp [addType, TypeNode.missing, TypeNode.edges, ClassDecl.inheritance, TypeNode.ofDecl,
    List.filter_map, Function.comp_def]

/-- Waiting names wait once and are no types yet; and for every type, and no other name, its missing
parents have been noted. -/
structure Noted (stack : LayerStack) (g : HierarchyGraph) (queue : List String) : Prop where
  once : queue.Nodup
  waiting : ∀ x ∈ queue, g.node? x = none
  dangling : ∀ c, g.dangling.filter (·.child == c) =
    ((g.node? c).map (·.missing stack c)).getD []

theorem Noted.start (stack : LayerStack) : Noted stack empty stack.unitNames.toList where
  once := by
    have hdistinct := Std.TreeSet.distinct_toList (t := stack.unitNames)
    exact hdistinct.imp fun hne heq => hne (Std.LawfulEqCmp.compare_eq_iff_eq.mpr heq)
  waiting x _ := by simp [node?, empty]
  dangling c := by simp [node?, empty]

theorem Noted.fail (e : Error) (h : Noted stack g (name :: queue)) :
    Noted stack (g.addFailure name e) queue where
  once := (List.nodup_cons.mp h.once).2
  waiting x hx := h.waiting x (List.mem_cons_of_mem _ hx)
  dangling := h.dangling

theorem Noted.add (h : Noted stack g (name :: queue))
    (hexplored : Explored stack codec g seen (name :: queue)) (d : ClassDecl) (kind : LayerKind) :
    Noted stack (g.addType stack.hasUnit name d kind)
      (queue ++ (discover stack.hasUnit seen d.parents).2) := by
  obtain ⟨hname, hqueue⟩ := List.nodup_cons.mp h.once
  obtain ⟨hfound, hnew⟩ := discover_new stack.hasUnit seen d.parents
  constructor
  case once =>
    refine List.nodup_append.mpr ⟨hqueue, hfound, ?_⟩
    rintro x hx _ hx' rfl
    exact hnew x hx' (hexplored.queued x (List.mem_cons_of_mem _ hx))
  case waiting =>
    intro x hx
    have hother : name ≠ x ∧ g.node? x = none := by
      rcases List.mem_append.mp hx with hx | hx
      · refine ⟨?_, h.waiting x (List.mem_cons_of_mem _ hx)⟩
        rintro rfl
        exact hname hx
      · -- what is found had not been seen, as types have
        have hunseen := hnew x hx
        constructor
        · rintro rfl
          exact hunseen (hexplored.queued _ List.mem_cons_self)
        · cases hn : g.node? x with
          | none => rfl
          | some n => exact absurd (hexplored.node x n hn).1 hunseen
    rw [node?_addType, if_neg hother.1, hother.2]
  case dangling =>
    intro c
    rw [dangling_addType, List.filter_append, h.dangling, TypeNode.filter_missing, node?_addType]
    split
    · rename_i heq
      subst heq
      rw [h.waiting name List.mem_cons_self]
      rfl
    · rw [List.append_nil]

theorem Noted.step (h : Noted stack g (name :: queue))
    (hexplored : Explored stack codec g seen (name :: queue)) :
    Noted stack (visit stack codec seen g name).1
      (queue ++ (discover stack.hasUnit seen (visit stack codec seen g name).2).2) := by
  have hunit := (hexplored.world name (hexplored.queued name List.mem_cons_self)).hasUnit
  rcases visit_cases seen g hunit with ⟨e, _, hvisit⟩ | ⟨d, l, _, _, hvisit⟩
  · rw [hvisit]
    simp only [discover, List.append_nil]
    exact h.fail e
  · rw [hvisit, hexplored.isKnown_eq]
    exact h.add hexplored d l.kind

theorem Noted.run (h : Noted stack g queue) (hexplored : Explored stack codec g seen queue) :
    Noted stack (explore stack codec g seen queue) [] := by
  fun_induction explore stack codec g seen queue with
  | case1 g seen => exact h
  | case2 g seen name queue visited found ih => exact ih (h.step hexplored) hexplored.step

/-- The notes on a name: its missing parents if it is a type. -/
theorem filter_dangling (stack : LayerStack) (codec : Codec) (c : String) :
    (ofStack stack codec).dangling.filter (·.child == c) =
      (((ofStack stack codec).node? c).map (·.missing stack c)).getD [] :=
  ((Noted.start stack).run (Explored.start stack codec)).dangling c

theorem danglingParents_ofStack (stack : LayerStack) (codec : Codec) (c : String) :
    (ofStack stack codec).danglingParents c =
      ((ofStack stack codec).directParents c).filter fun p => !stack.hasUnit p := by
  rw [danglingParents, filter_dangling, directParents]
  cases (ofStack stack codec).node? c with
  | none => rfl
  | some n => exact n.missing_parents stack c

theorem isDangling_iff (p : String) : (ofStack stack codec).isDangling p = true ↔
    stack.hasUnit p = false ∧ ∃ c, (ofStack stack codec).Inherits c p := by
  have hnoted : (ofStack stack codec).isDangling p = true ↔
      ∃ c, p ∈ (ofStack stack codec).danglingParents c := by
    simp only [isDangling, danglingParents, List.any_eq_true, List.mem_map, List.mem_filter,
      beq_iff_eq]
    constructor
    · rintro ⟨e, he, hp⟩
      exact ⟨e.child, e, ⟨he, rfl⟩, hp⟩
    · rintro ⟨c, e, ⟨he, _⟩, hp⟩
      exact ⟨e, he, hp⟩
  simp only [hnoted, danglingParents_ofStack, List.mem_filter, Bool.not_eq_true', Inherits,
    mem_directParents]
  constructor
  · rintro ⟨c, hc, hp⟩
    exact ⟨hp, c, hc⟩
  · rintro ⟨hp, c, hc⟩
    exact ⟨c, hc, hp⟩

/-- What dangles are the declared parents that no layer holds. Every type has one note for each time
that it declares such a parent, in the order of its declaration, and there are no others; a name is
dangling if no layer holds it and some type declares it; and such a name is neither a type nor a
failure, but a supertype of all that declare it. -/
theorem ofStack_dangling (stack : LayerStack) (codec : Codec) :
    (∀ c n, (ofStack stack codec).node? c = some n →
      (ofStack stack codec).dangling.filter (·.child == c) = n.missing stack c) ∧
    (∀ e ∈ (ofStack stack codec).dangling, (ofStack stack codec).contains e.child = true) ∧
    (∀ p, (ofStack stack codec).isDangling p = true ↔
      stack.hasUnit p = false ∧ ∃ c, (ofStack stack codec).Inherits c p) ∧
    (∀ c, (ofStack stack codec).danglingParents c =
      ((ofStack stack codec).directParents c).filter fun p => !stack.hasUnit p) ∧
    (∀ p, (ofStack stack codec).isDangling p = true →
      (ofStack stack codec).contains p = false ∧ (ofStack stack codec).failure? p = none) ∧
    (∀ c p, p ∈ (ofStack stack codec).danglingParents c →
      ∃ above, (ofStack stack codec).allParents c = .ok above ∧ p ∈ above) := by
  refine ⟨fun c n hn => ?_, fun e he => ?_, isDangling_iff, danglingParents_ofStack stack codec,
    fun p hp => ?_, fun c p hp => ?_⟩
  · rw [filter_dangling, hn]
    rfl
  · have hmem : e ∈ (ofStack stack codec).dangling.filter (·.child == e.child) :=
      List.mem_filter.mpr ⟨he, beq_self_eq_true _⟩
    rw [contains_iff]
    rw [filter_dangling] at hmem
    cases hn : (ofStack stack codec).node? e.child with
    | none =>
      rw [hn] at hmem
      cases hmem
    | some n => rfl
  · have hmissing := ((isDangling_iff p).mp hp).1
    constructor
    · rw [← Bool.not_eq_true, contains_iff, Option.isSome_iff_exists]
      rintro ⟨n, hn⟩
      rw [(ofStack_node? hn).1] at hmissing
      cases hmissing
    · cases hf : (ofStack stack codec).failure? p with
      | none => rfl
      | some e =>
        rw [hasUnit_of_failure? hf] at hmissing
        cases hmissing
  · rw [danglingParents_ofStack, List.mem_filter, mem_directParents, Bool.not_eq_true'] at hp
    obtain ⟨⟨n, hn, hparent⟩, hmissing⟩ := hp
    obtain ⟨hunit, hdecoded⟩ := ofStack_node? hn
    obtain ⟨above, habove, hmem⟩ := allParents_of_decoded hdecoded
    refine ⟨above, habove, (hmem p).mpr ⟨?_, .single ⟨n, hn, hparent⟩⟩⟩
    rintro rfl
    rw [hunit] at hmissing
    cases hmissing

end HierarchyGraph

namespace Cycle

/-- The interface that is not there is noted, once and for the type that declares it; the two types
that are there are not. -/
theorem gone_dangles :
    hierarchy.dangling.filter (·.child == "Egg") = [⟨"Egg", "Gone", .interface⟩] ∧
    hierarchy.isDangling "Gone" = true ∧ hierarchy.isDangling "Hen" = false ∧
    hierarchy.danglingParents "Egg" = ["Gone"] ∧ hierarchy.danglingParents "Hen" = [] := by
  have hegg : hierarchy.node? "Egg" = some (.ofDecl (type "Egg" "Hen" ["Gone"]) .primary) := by
    rw [HierarchyGraph.node?_eq_some_iff, nodes]
    simp
  have hhen : hierarchy.node? "Hen" = some (.ofDecl (type "Hen" "Egg" []) .primary) := by
    rw [HierarchyGraph.node?_eq_some_iff, nodes]
    simp
  have hunits : stack.hasUnit "Egg" = true ∧ stack.hasUnit "Hen" = true ∧
      stack.hasUnit "Gone" = false := by decide +kernel
  obtain ⟨heggUnit, hhenUnit, hgone⟩ := hunits
  obtain ⟨hnotes, _, hdangling, hparents, _, _⟩ := HierarchyGraph.ofStack_dangling stack codec
  refine ⟨?_, ?_, ?_, ?_, ?_⟩
  · rw [hierarchy, hnotes "Egg" _ hegg]
    simp [TypeNode.missing, TypeNode.edges, TypeNode.ofDecl, type, hhenUnit, hgone]
  · exact (hdangling "Gone").mpr ⟨hgone, "Egg", egg_inherits⟩
  · rw [← Bool.not_eq_true]
    intro h
    rw [((hdangling "Hen").mp h).1] at hhenUnit
    cases hhenUnit
  · rw [hierarchy, hparents, ← hierarchy, HierarchyGraph.directParents, hegg]
    simp [TypeNode.parents, TypeNode.ofDecl, type, hhenUnit, hgone]
  · rw [hierarchy, hparents, ← hierarchy, HierarchyGraph.directParents, hhen]
    simp [TypeNode.parents, TypeNode.ofDecl, type, heggUnit]

end Cycle

end ClassAtlas
