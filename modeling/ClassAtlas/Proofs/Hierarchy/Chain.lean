import ClassAtlas.Proofs.Hierarchy.Reachability
import ClassAtlas.Proofs.Hierarchy.Resolution
import Mathlib.Data.List.Chain

/-!
Superclass chains. A path from entry to entry holds all that can be reached along it, on cycles as
elsewhere, and every name on it is followed by the one that its entry leads to. So the chain of a
type consists of the types above it, and what comes behind a type on a chain is above that type.
-/

namespace ClassAtlas

open Relation (ReflTransGen TransGen)

namespace Reach

variable {β : Type} {m : Std.TreeMap String β} {next : β → Option String}

theorem mem_of_entry {name : String} {entry : β} (h : m[name]? = some entry) : name ∈ m := by
  rw [Std.TreeMap.mem_iff_isSome_getElem?, h]
  rfl

/-- The entry of a name is followed by another name. -/
def Follows (m : Std.TreeMap String β) (next : β → Option String) (a b : String) : Prop :=
  ∃ entry, m[a]? = some entry ∧ next entry = some b

theorem Follows.unique {a b c : String} (hb : Follows m next a b) (hc : Follows m next a c) :
    b = c := by
  obtain ⟨entry, hentry, hb⟩ := hb
  obtain ⟨entry', hentry', hc⟩ := hc
  have hsame : entry = entry' := Option.some_inj.mp (hentry.symm.trans hentry')
  rw [hsame, hc] at hb
  exact (Option.some_inj.mp hb).symm

/-- A list of entries, each followed by the next, that leaves out no entry that follows. -/
structure Run (m : Std.TreeMap String β) (next : β → Option String) (names : List String) :
    Prop where
  linked : names.IsChain (Follows m next)
  entries : ∀ x ∈ names, x ∈ m
  closed : ∀ a ∈ names, ∀ b ∈ m, Follows m next a b → b ∈ names

/-- What is behind a path on its way to a name, the latest first. -/
structure Passed (m : Std.TreeMap String β) (next : β → Option String) (passed : List String)
    (name : String) : Prop where
  linked : (name :: passed).IsChain fun b a => Follows m next a b
  entries : ∀ x ∈ passed, x ∈ m
  closed : ∀ a ∈ passed, ∀ b, Follows m next a b → b = name ∨ b ∈ passed

variable {passed : List String} {name : String}

theorem Passed.start (m : Std.TreeMap String β) (next : β → Option String) (name : String) :
    Passed m next [] name where
  linked := .singleton name
  entries x hx := by cases hx
  closed a ha := by cases ha

/-- The path goes on from an entry. -/
theorem Passed.step {entry : β} {following : String} (h : Passed m next passed name)
    (hm : m[name]? = some entry) (hnext : next entry = some following) :
    Passed m next (name :: passed) following where
  linked := .cons_cons ⟨entry, hm, hnext⟩ h.linked
  entries := List.forall_mem_cons.mpr ⟨mem_of_entry hm, h.entries⟩
  closed a ha b hb := by
    rcases List.mem_cons.mp ha with rfl | ha
    · exact .inl (hb.unique ⟨entry, hm, hnext⟩)
    · exact .inr (List.mem_cons.mpr (h.closed a ha b hb))

/-- The path ends where nothing new follows. -/
theorem Passed.stop (h : Passed m next passed name) (hname : name ∈ m → name ∈ passed) :
    Run m next passed.reverse where
  linked := List.isChain_reverse.mpr h.linked.tail
  entries x hx := h.entries x (List.mem_reverse.mp hx)
  closed a ha b hb hfollows := by
    apply List.mem_reverse.mpr
    rcases h.closed a (List.mem_reverse.mp ha) b hfollows with rfl | hpassed
    · exact hname hb
    · exact hpassed

/-- The path ends at an entry that nothing follows. -/
theorem Passed.last {entry : β} (h : Passed m next passed name) (hm : m[name]? = some entry)
    (hnext : next entry = none) : Run m next (name :: passed).reverse where
  linked := List.isChain_reverse.mpr h.linked
  entries x hx := by
    rcases List.mem_cons.mp (List.mem_reverse.mp hx) with rfl | hx
    · exact mem_of_entry hm
    · exact h.entries x hx
  closed a ha b _ hfollows := by
    apply List.mem_reverse.mpr
    rcases List.mem_cons.mp (List.mem_reverse.mp ha) with rfl | ha
    · obtain ⟨entry', hentry', hb⟩ := hfollows
      rw [hm, Option.some_inj] at hentry'
      rw [← hentry', hnext] at hb
      cases hb
    · exact List.mem_cons.mpr (h.closed a ha b hfollows)

theorem Passed.run (h : Passed m next passed name) : Run m next (path m next passed name) := by
  fun_induction path m next passed name with
  | case1 passed name hm =>
    refine h.stop fun hname => ?_
    rw [Std.TreeMap.mem_iff_isSome_getElem?, hm] at hname
    cases hname
  | case2 passed name entry hm hs => exact h.stop fun _ => by simpa using hs
  | case3 passed name entry hm hs hnext => exact h.last hm hnext
  | case4 passed name entry hm hs following hnext ih => exact ih (h.step hm hnext)

theorem path_run (m : Std.TreeMap String β) (next : β → Option String) (name : String) :
    Run m next (path m next [] name) :=
  (Passed.start m next name).run

/-- What comes behind a name on a run is reached from it. -/
theorem Run.behind {names before after : List String} {a x : String} (h : Run m next names)
    (hsplit : names = before ++ a :: after) (hx : x ∈ after) :
    TransGen (Follows m next) a x := by
  have hlinked : (a :: after).IsChain (TransGen (Follows m next)) := by
    have hchain := h.linked
    rw [hsplit] at hchain
    exact hchain.right_of_append.imp fun _ _ => .single
  exact hlinked.rel_cons hx

/-- A path holds exactly the entries that can be reached from its start. -/
theorem mem_path {x : String} :
    x ∈ path m next [] name ↔ x ∈ m ∧ ReflTransGen (Follows m next) name x := by
  have hrun := path_run m next name
  have hhead (hname : name ∈ m) : ∃ rest, path m next [] name = name :: rest := by
    obtain ⟨entry, hentry⟩ := Option.isSome_iff_exists.mp
      (Std.TreeMap.mem_iff_isSome_getElem?.mp hname)
    exact path_head next hentry
  constructor
  · intro hx
    refine ⟨hrun.entries x hx, ?_⟩
    by_cases hname : name ∈ m
    · obtain ⟨rest, hpath⟩ := hhead hname
      rw [hpath] at hx
      rcases List.mem_cons.mp hx with rfl | hx
      · exact .refl
      · have hsplit : path m next [] name = [] ++ name :: rest := hpath
        exact (hrun.behind hsplit hx).to_reflTransGen
    · rw [path_eq, Std.TreeMap.getElem?_eq_none hname] at hx
      cases hx
  · rintro ⟨hx, hreached⟩
    induction hreached with
    | refl =>
      obtain ⟨rest, hpath⟩ := hhead hx
      rw [hpath]
      exact List.mem_cons_self
    | @tail b c _ hstep ih =>
      have hb : b ∈ m := by
        obtain ⟨entry, hentry, -⟩ := hstep
        exact mem_of_entry hentry
      exact hrun.closed b (ih hb) c hx hstep

end Reach

namespace HierarchyGraph

variable {g : HierarchyGraph} {name x : String}

/-- A type of the graph declares a superclass. -/
def Extends (g : HierarchyGraph) (child parent : String) : Prop :=
  ∃ n, g.node? child = some n ∧ n.superName = some parent

theorem Extends.inherits {parent : String} (h : g.Extends name parent) :
    g.Inherits name parent := by
  obtain ⟨n, hn, hsuper⟩ := h
  exact ⟨n, hn, by simp [TypeNode.parents, hsuper]⟩

/-- The chain of a type consists of the types that can be reached over superclasses. -/
theorem mem_superclassChain : x ∈ g.superclassChain name ↔
    g.contains x = true ∧ ReflTransGen g.Extends name x := by
  rw [superclassChain, Reach.mem_path, contains, Std.TreeMap.contains_iff_mem]
  rfl

/-- What comes behind a type on a chain is above it. -/
theorem extends_of_behind {before after : List String} {c : String}
    (hsplit : g.superclassChain name = before ++ c :: after) (hx : x ∈ after) :
    TransGen g.Extends c x :=
  (Reach.path_run g.nodes TypeNode.superName name).behind hsplit hx

end HierarchyGraph

end ClassAtlas
