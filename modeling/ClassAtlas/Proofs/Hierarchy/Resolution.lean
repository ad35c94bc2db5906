import ClassAtlas.Hierarchy.Graph

/-!
How a graph finds the type that a method name means on a type: what a type declares, and the searches
one step at a time.
-/

namespace ClassAtlas

namespace Reach

variable {β : Type}

theorem nearest?_cons (m : Std.TreeMap String β) (out : β → List String) (test : β → Bool)
    (seen : Std.TreeSet String) (name : String) (pending : List String) :
    nearest? m out test seen (name :: pending) =
      if seen.contains name then nearest? m out test seen pending
      else match m[name]? with
        | none => nearest? m out test (seen.insert name) pending
        | some b =>
          if test b then some name
          else nearest? m out test (seen.insert name) (pending ++ out b) := by
  rw [nearest?.eq_def]
  grind

theorem spread_cons (m : Std.TreeMap String β) (out : β → List String) (start : String)
    (seen : Std.TreeSet String) (name : String) (pending : List String) :
    spread m out start seen (name :: pending) =
      if name == start then spread m out start seen pending
      else if seen.contains name then spread m out start seen pending
      else spread m out start (seen.insert name) (((m[name]?.map out).getD []) ++ pending) := by
  rw [spread.eq_def]
  grind

theorem path_eq (m : Std.TreeMap String β) (next : β → Option String) (passed : List String)
    (name : String) :
    path m next passed name =
      match m[name]? with
      | none => passed.reverse
      | some b =>
        if passed.contains name then passed.reverse
        else match next b with
          | none => (name :: passed).reverse
          | some following => path m next (name :: passed) following := by
  rw [path.eq_def]
  grind

/-- A path goes on from what it has passed. -/
theorem path_extends (m : Std.TreeMap String β) (next : β → Option String) (passed : List String)
    (name : String) : ∃ rest, path m next passed name = passed.reverse ++ rest := by
  fun_induction path m next passed name with
  | case1 passed name => exact ⟨[], by simp⟩
  | case2 passed name => exact ⟨[], by simp⟩
  | case3 passed name => exact ⟨[name], by simp⟩
  | case4 passed name b hm hs following hnext ih =>
    obtain ⟨rest, hrest⟩ := ih
    exact ⟨name :: rest, by simp [hrest]⟩

/-- A path from a name with an entry starts at that name. -/
theorem path_head {m : Std.TreeMap String β} (next : β → Option String) {name : String} {b : β}
    (hm : m[name]? = some b) : ∃ rest, path m next [] name = name :: rest := by
  rw [path_eq, hm]
  dsimp only
  rw [if_neg (by simp)]
  cases next b with
  | none => exact ⟨[], rfl⟩
  | some following =>
    obtain ⟨rest, hrest⟩ := path_extends m next [name] following
    exact ⟨rest, hrest⟩

end Reach

/-! ### The methods of a type -/

theorem MethodSig.isOverridable_iff {m : MethodSig} : m.isOverridable = true ↔
    m.access.isStatic = false ∧ m.access.isPrivate = false ∧ m.access.isAbstract = false ∧
      m.name ≠ "<init>" ∧ m.name ≠ "<clinit>" := by
  simp [isOverridable, and_assoc]

namespace TypeNode

variable {n : TypeNode} {name descriptor : String} {m : MethodSig}

/-- Among the methods of a type, the method is the first of its name and descriptor. -/
def DeclaresFirst (n : TypeNode) (name descriptor : String) (m : MethodSig) : Prop :=
  ∃ before after, n.methods = before ++ m :: after ∧ m.name = name ∧ m.descriptor = descriptor ∧
    ∀ other ∈ before, ¬ (other.name = name ∧ other.descriptor = descriptor)

theorem declares?_eq_some_iff :
    n.declares? name descriptor = some m ↔ n.DeclaresFirst name descriptor m := by
  rw [declares?, List.find?_eq_some_iff_append]
  simp only [Bool.and_eq_true, beq_iff_eq, Bool.not_eq_true', Bool.eq_false_iff, ne_eq]
  constructor
  · rintro ⟨⟨hname, hdescriptor⟩, before, after, hsplit, hbefore⟩
    exact ⟨before, after, hsplit, hname, hdescriptor, hbefore⟩
  · rintro ⟨before, after, hsplit, hname, hdescriptor, hbefore⟩
    exact ⟨⟨hname, hdescriptor⟩, before, after, hsplit, hbefore⟩

theorem declares_iff : n.declares name descriptor = true ↔
    ∃ m ∈ n.methods, m.name = name ∧ m.descriptor = descriptor := by
  simp only [declares, declares?, List.find?_isSome, Bool.and_eq_true, beq_iff_eq]

end TypeNode

/-! ### What a method name means -/

namespace HierarchyGraph

/-- A method means itself on the type that declares it. -/
theorem resolveMethod_of_declares {g : HierarchyGraph} {owner name descriptor : String}
    {n : TypeNode} (hnode : g.node? owner = some n) (hdeclares : n.declares name descriptor = true) :
    g.resolveMethod owner name descriptor = some owner := by
  obtain ⟨rest, hchain⟩ := Reach.path_head TypeNode.superName hnode
  have hfind : (owner :: rest).find? (fun c => (g.node? c).any fun n => n.declares name descriptor) =
      some owner := by
    apply List.find?_cons_of_pos
    rw [hnode]
    exact hdeclares
  simp only [resolveMethod, superclassChain, hchain, hfind]

end HierarchyGraph

end ClassAtlas
