import ClassAtlas.Proofs.Calls.Callers
import ClassAtlas.Proofs.Hierarchy.CommonSuperclass
import Mathlib.Data.List.Infix
import Mathlib.Data.List.Perm.Subperm

/-!
How far a superclass chain goes. From a type it climbs from superclass to superclass, as far as
there are types and none comes twice, and it is the only list of types that does. The rounds that
find it come to an end on every graph, cyclic or not. Where no cycle can be reached, what is left of
a chain behind a type is the chain of that type.
-/

namespace ClassAtlas

open Relation (ReflTransGen TransGen)

namespace Reach

variable {β : Type} {m : Std.TreeMap String β} {next : β → Option String} {name : String}

theorem path_nodup {passed : List String} (h : passed.Nodup) :
    (path m next passed name).Nodup := by
  fun_induction path m next passed name with
  | case1 passed name hm => exact List.nodup_reverse.mpr h
  | case2 passed name entry hm hs => exact List.nodup_reverse.mpr h
  | case3 passed name entry hm hs hnext =>
    have hnew : name ∉ passed := by simpa using hs
    exact List.nodup_reverse.mpr (List.nodup_cons.mpr ⟨hnew, h⟩)
  | case4 passed name entry hm hs following hnext ih =>
    have hnew : name ∉ passed := by simpa using hs
    exact ih (List.nodup_cons.mpr ⟨hnew, h⟩)

/-- What was passed makes no difference to a path that cannot come to it again. -/
theorem path_append {passed old : List String}
    (hold : ∀ x ∈ old, ¬ ReflTransGen (Follows m next) name x) :
    path m next (passed ++ old) name = old.reverse ++ path m next passed name := by
  fun_induction path m next passed name with
  | case1 passed name hm =>
    rw [path_eq, hm]
    exact List.reverse_append
  | case2 passed name entry hm hs =>
    have hagain : (passed ++ old).contains name = true := by simp_all
    rw [path_eq, hm]
    dsimp only
    rw [if_pos hagain]
    exact List.reverse_append
  | case3 passed name entry hm hs hnext =>
    have hname : name ∉ old := fun hmem => hold name hmem .refl
    have hnew : ¬ (passed ++ old).contains name = true := by simp_all
    rw [path_eq, hm]
    dsimp only
    rw [if_neg hnew, hnext]
    simp
  | case4 passed name entry hm hs following hnext ih =>
    have hname : name ∉ old := fun hmem => hold name hmem .refl
    have hnew : ¬ (passed ++ old).contains name = true := by simp_all
    rw [path_eq, hm]
    dsimp only
    rw [if_neg hnew, hnext]
    exact ih fun x hx hreached => hold x hx (.head ⟨entry, hm, hnext⟩ hreached)

/-- A path that does not come back to its start goes on as the path of the name that follows. -/
theorem path_step {following : String} (hfollows : Follows m next name following)
    (hcycle : ¬ TransGen (Follows m next) name name) :
    path m next [] name = name :: path m next [] following := by
  obtain ⟨entry, hm, hnext⟩ := hfollows
  have hback : ∀ x ∈ [name], ¬ ReflTransGen (Follows m next) following x := by
    intro x hx hreached
    rw [List.mem_singleton.mp hx] at hreached
    exact hcycle (.head' ⟨entry, hm, hnext⟩ hreached)
  have hrest : path m next ([] ++ [name]) following = [name].reverse ++ path m next [] following :=
    path_append hback
  rw [path_eq, hm]
  dsimp only
  rw [if_neg (by simp), hnext]
  exact hrest

end Reach

namespace HierarchyGraph

variable {g : HierarchyGraph} {name x : String} {types : List String}

theorem Extends.unique {a b c : String} (hb : g.Extends a b) (hc : g.Extends a c) : b = c :=
  Reach.Follows.unique hb hc

/-! ### The chain -/

/-- A list of types that starts with a type, if there is one of this name, and climbs from
superclass to superclass until nothing new follows. -/
structure Climb (g : HierarchyGraph) (name : String) (types : List String) : Prop where
  empty_iff : types = [] ↔ g.contains name = false
  starts : ∀ first ∈ types.head?, first = name
  distinct : types.Nodup
  held : ∀ x ∈ types, g.contains x = true
  linked : types.IsChain g.Extends
  stops : ∀ last ∈ types.getLast?, (∀ super, ¬ g.Extends last super) ∨
    ∃ super, g.Extends last super ∧ (g.contains super = false ∨ super ∈ types)

theorem superclassChain_eq_nil : g.superclassChain name = [] ↔ g.contains name = false := by
  constructor
  · intro hnil
    by_contra hcontains
    rw [Bool.not_eq_false] at hcontains
    have hmem : name ∈ g.superclassChain name := mem_superclassChain.mpr ⟨hcontains, .refl⟩
    rw [hnil] at hmem
    cases hmem
  · intro hcontains
    have hmissing : name ∉ g.nodes := by
      rw [← Std.TreeMap.contains_iff_mem]
      exact Bool.eq_false_iff.mp hcontains
    rw [superclassChain, Reach.path_eq, Std.TreeMap.getElem?_eq_none hmissing]
    rfl

theorem superclassChain_starts : ∀ first ∈ (g.superclassChain name).head?, first = name := by
  intro first hfirst
  cases hnode : g.node? name with
  | none =>
    have hmissing : g.contains name = false := by
      rw [← Bool.not_eq_true, contains_iff, hnode]
      exact Bool.false_ne_true
    rw [superclassChain_eq_nil.mpr hmissing] at hfirst
    cases hfirst
  | some n =>
    obtain ⟨rest, hchain⟩ := Reach.path_head TypeNode.superName hnode
    rw [superclassChain, hchain] at hfirst
    exact (Option.some_inj.mp hfirst).symm

theorem climb_superclassChain (g : HierarchyGraph) (name : String) :
    g.Climb name (g.superclassChain name) := by
  have hrun : Reach.Run g.nodes TypeNode.superName (g.superclassChain name) :=
    Reach.path_run g.nodes TypeNode.superName name
  refine ⟨superclassChain_eq_nil, superclassChain_starts, Reach.path_nodup .nil,
    fun x hx => (mem_superclassChain.mp hx).1, hrun.linked, ?_⟩
  intro last hlast
  by_cases hsuper : ∃ super, g.Extends last super
  · obtain ⟨super, hextends⟩ := hsuper
    refine .inr ⟨super, hextends, ?_⟩
    cases hheld : g.contains super with
    | false => exact .inl rfl
    | true =>
      rw [contains, Std.TreeMap.contains_iff_mem] at hheld
      exact .inr (hrun.closed last (List.mem_of_getLast? hlast) super hheld hextends)
  · exact .inl (not_exists.mp hsuper)

/-- Where superclasses are followed from the same type, one list begins with the other. -/
theorem begins_or_begins {rest rest' : List String} (h : (name :: rest).IsChain g.Extends)
    (h' : (name :: rest').IsChain g.Extends) : rest <+: rest' ∨ rest' <+: rest := by
  induction rest generalizing name rest' with
  | nil => exact .inl List.nil_prefix
  | cons super rest ih =>
    cases rest' with
    | nil => exact .inr List.nil_prefix
    | cons super' rest' =>
      obtain ⟨hsuper, h⟩ := List.isChain_cons_cons.mp h
      obtain ⟨hsuper', h'⟩ := List.isChain_cons_cons.mp h'
      rw [hsuper.unique hsuper'] at h ⊢
      simpa only [List.prefix_cons_inj] using ih h h'

/-- Nothing can follow where a climb has stopped. -/
theorem Climb.eq_of_begins {types' : List String} (h : g.Climb name types)
    (h' : g.Climb name types') (hne : types ≠ []) (hbegins : types <+: types') :
    types = types' := by
  obtain ⟨rest, rfl⟩ := hbegins
  cases rest with
  | nil => rw [List.append_nil]
  | cons x rest =>
    have hlast : types.getLast hne ∈ types.getLast? := List.getLast?_eq_some_getLast hne
    have hextends : g.Extends (types.getLast hne) x :=
      (List.isChain_append.mp h'.linked).2.2 _ hlast x rfl
    have hheld : g.contains x = true := h'.held x (by simp)
    have hnew : x ∉ types := fun hmem =>
      (List.nodup_append.mp h'.distinct).2.2 x hmem x List.mem_cons_self rfl
    rcases h.stops _ hlast with hnone | ⟨super, hsuper, hstop⟩
    · exact absurd hextends (hnone x)
    · rw [hsuper.unique hextends, hheld] at hstop
      rcases hstop with hmissing | hagain
      · cases hmissing
      · exact absurd hagain hnew

theorem Climb.unique {types' : List String} (h : g.Climb name types) (h' : g.Climb name types') :
    types = types' := by
  cases types with
  | nil => exact (h'.empty_iff.mpr (h.empty_iff.mp rfl)).symm
  | cons first rest =>
    cases types' with
    | nil => exact h.empty_iff.mpr (h'.empty_iff.mp rfl)
    | cons first' rest' =>
      obtain rfl := h.starts first rfl
      obtain rfl := h'.starts first' rfl
      rcases begins_or_begins h.linked h'.linked with hbegins | hbegins
      · exact h.eq_of_begins h' (List.cons_ne_nil _ _) ((List.prefix_cons_inj _).mpr hbegins)
      · exact (h'.eq_of_begins h (List.cons_ne_nil _ _)
          ((List.prefix_cons_inj _).mpr hbegins)).symm

theorem length_superclassChain (g : HierarchyGraph) (name : String) :
    (g.superclassChain name).length ≤ g.nodes.size := by
  have hkeys : g.superclassChain name ⊆ g.nodes.keys := by
    intro x hx
    have hheld := (mem_superclassChain.mp hx).1
    rw [contains, Std.TreeMap.contains_iff_mem] at hheld
    exact Std.TreeMap.mem_keys.mpr hheld
  have hdistinct : (g.superclassChain name).Nodup := Reach.path_nodup .nil
  rw [← Std.TreeMap.length_keys]
  exact (List.subperm_of_subset hdistinct hkeys).length_le

/-- Behind a type on a chain stands the rest of the chain of that type, if no cycle is reached. -/
theorem superclassChain_suffix {before after : List String}
    (hacyclic : ∀ y, ReflTransGen g.Extends name y → ¬ TransGen g.Extends y y)
    (hsplit : g.superclassChain name = before ++ x :: after) :
    g.superclassChain x = x :: after := by
  induction before generalizing name with
  | nil =>
    have hfirst : x ∈ (g.superclassChain name).head? := by
      rw [hsplit]
      rfl
    rw [superclassChain_starts x hfirst]
    rw [superclassChain_starts x hfirst] at hsplit
    exact hsplit
  | cons first before ih =>
    have hfirst : first ∈ (g.superclassChain name).head? := by
      rw [hsplit]
      rfl
    obtain rfl := superclassChain_starts first hfirst
    have hlinked : (first :: (before ++ x :: after)).IsChain g.Extends := by
      have hlinked := (climb_superclassChain g first).linked
      rw [hsplit] at hlinked
      exact hlinked
    obtain ⟨super, hsuper⟩ : ∃ super, super ∈ (before ++ x :: after).head? := by
      cases before with
      | nil => exact ⟨x, rfl⟩
      | cons super before => exact ⟨super, rfl⟩
    have hextends : g.Extends first super := (List.isChain_cons.mp hlinked).1 super hsuper
    have hstep : g.superclassChain first = first :: g.superclassChain super :=
      Reach.path_step hextends (hacyclic first .refl)
    rw [hstep] at hsplit
    exact ih (fun y hy => hacyclic y (.head hextends hy)) (List.cons_inj_right first |>.mp hsplit)

/-! ### The rounds that find it -/

/-- Every type stands under its own name. -/
def NamesKept (g : HierarchyGraph) : Prop :=
  ∀ x n, g.node? x = some n → n.name = x

/-- The rounds that climb from a type, with the names passed so far: while there is a type whose
name is new, the name is noted and the superclass comes next. -/
inductive Climbs (g : HierarchyGraph) : List String → Option TypeNode → List String → Prop
  | ended {passed : List String} : Climbs g passed none passed
  | repeated {passed : List String} {n : TypeNode} (h : n.name ∈ passed) :
    Climbs g passed (some n) passed
  | climbed {passed found : List String} {n : TypeNode} (h : n.name ∉ passed)
    (hrest : Climbs g (passed ++ [n.name]) (n.superName.bind g.node?) found) :
    Climbs g passed (some n) found

theorem Climbs.unique {passed found found' : List String} {current : Option TypeNode}
    (h : g.Climbs passed current found) (h' : g.Climbs passed current found') : found = found' := by
  induction h with
  | ended =>
    cases h'
    rfl
  | repeated hpassed =>
    cases h' with
    | repeated _ => rfl
    | climbed hnew _ => exact absurd hpassed hnew
  | climbed hnew _ ih =>
    cases h' with
    | repeated hpassed => exact absurd hpassed hnew
    | climbed _ hrest => exact ih hrest

/-- Each round notes the name of a type, so the rounds come to an end, whatever the names are. -/
theorem exists_climbs (g : HierarchyGraph) (passed : List String) (current : Option TypeNode)
    (hcurrent : ∀ n ∈ current, ∃ x, g.node? x = some n) :
    ∃ found, g.Climbs passed current found := by
  induction hleft : g.nodes.toList.countP (fun entry => !passed.contains entry.2.name) using
    Nat.strong_induction_on generalizing passed current with
  | _ left ih =>
    cases current with
    | none => exact ⟨passed, .ended⟩
    | some n =>
      by_cases hname : n.name ∈ passed
      · exact ⟨passed, .repeated hname⟩
      · obtain ⟨x, hx⟩ := hcurrent n rfl
        have hfewer : g.nodes.toList.countP (fun entry =>
              !(passed ++ [n.name]).contains entry.2.name) <
            g.nodes.toList.countP fun entry => !passed.contains entry.2.name := by
          refine countP_lt_countP ?_ (node?_eq_some_iff.mp hx) (by simpa using hname) (by simp)
          intro entry _ hnew
          simp only [List.contains_append, Bool.not_or, Bool.and_eq_true] at hnew
          exact hnew.1
        have hsuper : ∀ s ∈ n.superName.bind g.node?, ∃ y, g.node? y = some s := by
          intro s hs
          obtain ⟨y, -, hy⟩ := Option.bind_eq_some_iff.mp hs
          exact ⟨y, hy⟩
        obtain ⟨found, hrest⟩ := ih _ (hleft ▸ hfewer) (passed ++ [n.name])
          (n.superName.bind g.node?) hsuper rfl
        exact ⟨found, .climbed hname hrest⟩

theorem climbs_path (hnames : g.NamesKept) (passed : List String) (name : String) :
    g.Climbs passed.reverse (g.node? name)
      (Reach.path g.nodes TypeNode.superName passed name) := by
  fun_induction Reach.path g.nodes TypeNode.superName passed name with
  | case1 passed name hm =>
    have hnode : g.node? name = none := hm
    rw [hnode]
    exact .ended
  | case2 passed name n hm hs =>
    have hnode : g.node? name = some n := hm
    rw [hnode]
    refine .repeated ?_
    rw [hnames name n hnode]
    simpa using hs
  | case3 passed name n hm hs hnext =>
    have hnode : g.node? name = some n := hm
    rw [hnode]
    refine .climbed ?_ ?_
    · rw [hnames name n hnode]
      simpa using hs
    · rw [hnames name n hnode, hnext, List.reverse_cons]
      exact .ended
  | case4 passed name n hm hs super hnext ih =>
    have hnode : g.node? name = some n := hm
    rw [hnode]
    refine .climbed ?_ ?_
    · rw [hnames name n hnode]
      simpa using hs
    · rw [hnames name n hnode, hnext, ← List.reverse_cons]
      exact ih

theorem ofStack_namesKept {stack : LayerStack} {codec : Codec} (hcodec : codec.KeepsNames) :
    (ofStack stack codec).NamesKept := by
  intro x n hn
  obtain ⟨d, l, hd, -, rfl⟩ := ofStack_decoded hn
  obtain ⟨u, hu, hdecode⟩ := Option.map_eq_some_iff.mp hd
  have hname : d.name = u.name := hcodec u.name u.bytes d hdecode
  exact hname.trans (LayerStack.unit?_name hu)

/-- The chain of a type is the one list that climbs from it to the end. The rounds that climb end
with exactly one answer, on every graph, and it is the chain where types stand under their own names.
If no cycle of superclasses is reached, each type on a chain has the rest of it as its own chain. -/
theorem superclassChain_exact (g : HierarchyGraph) (name : String) :
    (∀ types, g.Climb name types ↔ types = g.superclassChain name) ∧
    (g.superclassChain name).length ≤ g.nodes.size ∧
    (∃! found, g.Climbs [] (g.node? name) found) ∧
    (g.NamesKept → ∀ found,
      g.Climbs [] (g.node? name) found ↔ found = g.superclassChain name) ∧
    ((∀ y, ReflTransGen g.Extends name y → ¬ TransGen g.Extends y y) → ∀ before x after,
      g.superclassChain name = before ++ x :: after → g.superclassChain x = x :: after) := by
  refine ⟨fun types => ⟨fun h => h.unique (climb_superclassChain g name), ?_⟩,
    length_superclassChain g name, ?_, fun hnames found => ?_,
    fun hacyclic _ _ _ hsplit => superclassChain_suffix hacyclic hsplit⟩
  · rintro rfl
    exact climb_superclassChain g name
  · obtain ⟨found, hfound⟩ := exists_climbs g [] (g.node? name) fun n hn => ⟨name, hn⟩
    exact ⟨found, hfound, fun found' hfound' => hfound'.unique hfound⟩
  · have hchain : g.Climbs [] (g.node? name) (g.superclassChain name) := climbs_path hnames [] name
    constructor
    · exact fun hfound => hfound.unique hchain
    · rintro rfl
      exact hchain

end HierarchyGraph

namespace Litter

theorem named (name : String) (bytes : List UInt8) (d : ClassDecl)
    (h : codec.decode name bytes = .ok d) : d.name = name := by
  cases hfind : types.find? fun d => d.name == name with
  | none => simp [codec, hfind] at h
  | some found =>
    simp only [codec, hfind, Except.ok.injEq] at h
    subst h
    simpa using List.find?_some hfind

theorem kitten_climbs : hierarchy.NamesKept ∧ (∀ x, ¬ TransGen hierarchy.Extends x x) ∧
    hierarchy.Climb "Kitten" ["Kitten", "Cat", "Animal"] ∧
    hierarchy.Climbs [] (hierarchy.node? "Kitten") ["Kitten", "Cat", "Animal"] ∧
    hierarchy.superclassChain "Cat" = ["Cat", "Animal"] := by
  have hchain : hierarchy.superclassChain "Kitten" = ["Kitten", "Cat", "Animal"] := by
    decide +kernel
  have hkept : hierarchy.NamesKept := HierarchyGraph.ofStack_namesKept named
  obtain ⟨hclimb, -, -, hrounds, hsuffix⟩ :=
    HierarchyGraph.superclassChain_exact hierarchy "Kitten"
  exact ⟨hkept, acyclic, (hclimb _).mpr hchain.symm, (hrounds hkept _).mpr hchain.symm,
    hsuffix (fun y _ => acyclic y) ["Kitten"] "Cat" ["Animal"] hchain⟩

end Litter

end ClassAtlas
