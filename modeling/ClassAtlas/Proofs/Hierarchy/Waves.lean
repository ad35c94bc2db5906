import ClassAtlas.Proofs.Hierarchy.Construction
import ClassAtlas.Proofs.Hierarchy.Resolution
import Mathlib.Data.Nat.Find

/-!
Breadth-first search. What a search leads to lies in waves: the names that it starts from, those
that they lead to, and so on. The search passes over names that it has seen, but these lead to
nothing new, so it still goes through one wave after the other, each in order. What it finds is the
first name in that order that passes the test.
-/

namespace ClassAtlas

namespace Reach

variable {β : Type}

section

variable (m : Std.TreeMap String β) (out : β → List String) (test : β → Bool)

/-- The names that a name leads to. -/
def ways (name : String) : List String :=
  (m[name]?.map out).getD []

/-- The names that so many steps lead to, in the order of the steps. A name that is come to on
several ways is there as often. -/
def wave (start : List String) : Nat → List String
  | 0 => start
  | k + 1 => (wave start k).flatMap (ways m out)

/-- Whether a name has an entry that passes a test. -/
def passes (name : String) : Bool :=
  m[name]?.any test

/-- The seen names with those of a list, and the new ones among these, each once. -/
def sift (seen : Std.TreeSet String) (names : List String) : Std.TreeSet String × List String :=
  HierarchyGraph.discover (fun _ => true) seen names

end

variable {m : Std.TreeMap String β} {out : β → List String} {test : β → Bool}
  {seen : Std.TreeSet String} {queue start : List String} {k : Nat}

theorem mem_sift {names : List String} {x : String} :
    x ∈ (sift seen names).1 ↔ x ∈ seen ∨ x ∈ names := by
  simp [sift, HierarchyGraph.mem_discover]

theorem mem_sift_iff {names : List String} {x : String} :
    x ∈ (sift seen names).1 ↔ x ∈ seen ∨ x ∈ (sift seen names).2 :=
  HierarchyGraph.mem_discover_iff

theorem sift_cons (seen : Std.TreeSet String) (name : String) (names : List String) :
    sift seen (name :: names) = if seen.contains name then sift seen names
      else ((sift (seen.insert name) names).1, name :: (sift (seen.insert name) names).2) := by
  cases hseen : seen.contains name <;> simp [sift, HierarchyGraph.discover, hseen]

theorem sift_append (seen : Std.TreeSet String) (names more : List String) :
    sift seen (names ++ more) = ((sift (sift seen names).1 more).1,
      (sift seen names).2 ++ (sift (sift seen names).1 more).2) := by
  induction names generalizing seen with
  | nil => rfl
  | cons name names ih =>
    rw [List.cons_append, sift_cons, sift_cons]
    split
    · exact ih seen
    · rw [ih]
      rfl

theorem sift_of_seen {names : List String} (h : ∀ x ∈ names, x ∈ seen) :
    sift seen names = (seen, []) := by
  induction names with
  | nil => rfl
  | cons name names ih =>
    obtain ⟨hname, hnames⟩ := List.forall_mem_cons.mp h
    rw [sift_cons, if_pos (Std.TreeSet.contains_iff_mem.mpr hname)]
    exact ih hnames

/-- New names lead to the same new names as all names do, if the seen ones lead to nothing new. -/
theorem sift_flatMap {f : String → List String} {seen' : Std.TreeSet String} {names : List String}
    (h : ∀ x ∈ seen, ∀ y ∈ f x, y ∈ seen') :
    (sift seen' ((sift seen names).2.flatMap f)).2 = (sift seen' (names.flatMap f)).2 := by
  induction names generalizing seen seen' with
  | nil => rfl
  | cons name names ih =>
    rw [sift_cons]
    split
    · rename_i hname
      have hold : sift seen' (f name) = (seen', []) :=
        sift_of_seen (h name (Std.TreeSet.contains_iff_mem.mp hname))
      rw [List.flatMap_cons, sift_append, hold, List.nil_append]
      exact ih h
    · have hnext : ∀ x ∈ seen.insert name, ∀ y ∈ f x, y ∈ (sift seen' (f name)).1 := by
        intro x hx y hy
        rw [Std.TreeSet.mem_insert, Std.LawfulEqOrd.compare_eq_iff_eq] at hx
        rcases hx with rfl | hx
        · exact mem_sift.mpr (.inr hy)
        · exact mem_sift.mpr (.inl (h x hx y hy))
      rw [List.flatMap_cons, List.flatMap_cons, sift_append, sift_append, ih hnext]

/-- If no seen name passes, the first new one that passes is the first of all. -/
theorem find?_sift {p : String → Bool} {names : List String} (h : ∀ x ∈ seen, p x = false) :
    (sift seen names).2.find? p = names.find? p := by
  induction names generalizing seen with
  | nil => rfl
  | cons name names ih =>
    rw [sift_cons]
    split
    · rename_i hname
      have hfails : p name = false := h name (Std.TreeSet.contains_iff_mem.mp hname)
      rw [List.find?_cons_of_neg (by simp [hfails])]
      exact ih h
    · by_cases hname : p name = true
      · rw [List.find?_cons_of_pos hname, List.find?_cons_of_pos hname]
      · rw [List.find?_cons_of_neg hname, List.find?_cons_of_neg hname]
        apply ih
        intro x hx
        rw [Std.TreeSet.mem_insert, Std.LawfulEqOrd.compare_eq_iff_eq] at hx
        rcases hx with rfl | hx
        · simpa using hname
        · exact h x hx

theorem nearest?_pending (seen : Std.TreeSet String) (name : String) (pending : List String) :
    nearest? m out test seen (name :: pending) =
      if seen.contains name then nearest? m out test seen pending
      else if passes m test name then some name
      else nearest? m out test (seen.insert name) (pending ++ ways m out name) := by
  rw [nearest?_cons, passes, ways]
  cases m[name]? <;> simp

/-- A search goes through the names at the front of its queue first, and what the new ones among
them lead to comes behind the rest. -/
theorem nearest?_append (seen : Std.TreeSet String) (names rest : List String) :
    nearest? m out test seen (names ++ rest) =
      ((sift seen names).2.find? (passes m test)).or
        (nearest? m out test (sift seen names).1
          (rest ++ (sift seen names).2.flatMap (ways m out))) := by
  induction names generalizing seen rest with
  | nil => simp [sift, HierarchyGraph.discover]
  | cons name names ih =>
    rw [List.cons_append, nearest?_pending, sift_cons]
    split
    · exact ih seen rest
    · by_cases hpasses : passes m test name = true
      · simp [hpasses]
      · simp [hpasses, ih]

/-- A search when it has gone through so many waves: what it has seen are the names of these, and
its queue has the new names of the next wave, in order. -/
structure Round (m : Std.TreeMap String β) (out : β → List String) (start : List String) (k : Nat)
    (seen : Std.TreeSet String) (queue : List String) : Prop where
  behind : ∀ x, x ∈ seen ↔ ∃ j < k, x ∈ wave m out start j
  queued : (sift seen queue).2 = (sift seen (wave m out start k)).2

theorem Round.init (m : Std.TreeMap String β) (out : β → List String) (start : List String) :
    Round m out start 0 ∅ start where
  behind x := by simp
  queued := rfl

/-- Going through the queue of a round leads to the next one. -/
theorem Round.next (h : Round m out start k seen queue) :
    Round m out start (k + 1) (sift seen queue).1
      ((sift seen queue).2.flatMap (ways m out)) := by
  have hbehind : ∀ x, x ∈ (sift seen queue).1 ↔ ∃ j < k + 1, x ∈ wave m out start j := by
    intro x
    rw [mem_sift_iff, h.queued, ← mem_sift_iff, mem_sift, h.behind]
    constructor
    · rintro (⟨j, hj, hx⟩ | hx)
      · exact ⟨j, by omega, hx⟩
      · exact ⟨k, by omega, hx⟩
    · rintro ⟨j, hj, hx⟩
      rcases Nat.lt_succ_iff_lt_or_eq.mp hj with hj | rfl
      · exact .inl ⟨j, hj, hx⟩
      · exact .inr hx
  have hclosed : ∀ x ∈ seen, ∀ y ∈ ways m out x, y ∈ (sift seen queue).1 := by
    intro x hx y hy
    obtain ⟨j, hj, hx⟩ := (h.behind x).mp hx
    exact (hbehind y).mpr ⟨j + 1, by omega, List.mem_flatMap.mpr ⟨x, hx, hy⟩⟩
  refine ⟨hbehind, ?_⟩
  rw [h.queued, sift_flatMap hclosed]
  rfl

/-- If nothing passes in the waves behind it, a round finds the first name of its wave that
passes, or goes on. -/
theorem Round.nearest? (h : Round m out start k seen queue)
    (hfails : ∀ j < k, ∀ x ∈ wave m out start j, passes m test x = false) :
    nearest? m out test seen queue = ((wave m out start k).find? (passes m test)).or
      (nearest? m out test (sift seen queue).1
        ((sift seen queue).2.flatMap (ways m out))) := by
  have hseen : ∀ x ∈ seen, passes m test x = false := by
    intro x hx
    obtain ⟨j, hj, hx⟩ := (h.behind x).mp hx
    exact hfails j hj x hx
  calc Reach.nearest? m out test seen queue
      = Reach.nearest? m out test seen (queue ++ []) := by rw [List.append_nil]
    _ = ((sift seen queue).2.find? (passes m test)).or
          (Reach.nearest? m out test (sift seen queue).1
            ([] ++ (sift seen queue).2.flatMap (ways m out))) := nearest?_append seen queue []
    _ = ((wave m out start k).find? (passes m test)).or
          (Reach.nearest? m out test (sift seen queue).1
            ((sift seen queue).2.flatMap (ways m out))) := by
      have hfirst : (sift seen queue).2.find? (passes m test) =
          (wave m out start k).find? (passes m test) := by rw [h.queued, find?_sift hseen]
      rw [hfirst, List.nil_append]

/-- A search comes to a wave if nothing passes in those before. -/
theorem exists_round (hfails : ∀ j < k, ∀ x ∈ wave m out start j, passes m test x = false) :
    ∃ seen queue, Round m out start k seen queue ∧
      Reach.nearest? m out test ∅ start = Reach.nearest? m out test seen queue := by
  induction k with
  | zero => exact ⟨∅, start, .init m out start, rfl⟩
  | succ k ih =>
    have hbefore : ∀ j < k, ∀ x ∈ wave m out start j, passes m test x = false := by
      intro j hj
      exact hfails j (by omega)
    obtain ⟨seen, queue, hround, hsearch⟩ := ih hbefore
    have hnone : (wave m out start k).find? (passes m test) = none := by
      apply List.find?_eq_none.mpr
      intro x hx
      simp [hfails k (by omega) x hx]
    refine ⟨_, _, hround.next, ?_⟩
    rw [hsearch, hround.nearest? hbefore, hnone, Option.none_or]

/-- What a search finds passes, and lies in a wave. -/
theorem mem_wave_of_nearest? {pending : List String} {x : String}
    (hpending : ∀ y ∈ pending, ∃ k, y ∈ wave m out start k)
    (hx : nearest? m out test seen pending = some x) :
    passes m test x = true ∧ ∃ k, x ∈ wave m out start k := by
  fun_induction Reach.nearest? m out test seen pending with
  | case1 seen => cases hx
  | case2 seen name pending hs ih => exact ih (List.forall_mem_cons.mp hpending).2 hx
  | case3 seen name pending hs hm ih => exact ih (List.forall_mem_cons.mp hpending).2 hx
  | case4 seen name pending hs b hm htest =>
    obtain rfl := Option.some_inj.mp hx
    exact ⟨by simp [passes, hm, htest], hpending name List.mem_cons_self⟩
  | case5 seen name pending hs b hm htest ih =>
    refine ih (fun y hy => ?_) hx
    rcases List.mem_append.mp hy with hy | hy
    · exact hpending y (List.mem_cons_of_mem _ hy)
    · obtain ⟨k, hname⟩ := hpending name List.mem_cons_self
      refine ⟨k + 1, List.mem_flatMap.mpr ⟨name, hname, ?_⟩⟩
      simpa [ways, hm] using hy

/-- The first wave in which a name passes. -/
theorem exists_first {x : String} (hx : x ∈ wave m out start k) (hpasses : passes m test x = true) :
    ∃ j y, (wave m out start j).find? (passes m test) = some y ∧
      ∀ i < j, ∀ z ∈ wave m out start i, passes m test z = false := by
  have hsome : ∃ j, ((wave m out start j).find? (passes m test)).isSome := by
    refine ⟨k, List.find?_isSome.mpr ⟨x, hx, hpasses⟩⟩
  obtain ⟨y, hy⟩ := Option.isSome_iff_exists.mp (Nat.find_spec hsome)
  refine ⟨Nat.find hsome, y, hy, ?_⟩
  intro i hi z hz
  have hnone := Nat.find_min hsome hi
  rw [Option.not_isSome_iff_eq_none, List.find?_eq_none] at hnone
  simpa using hnone z hz

/-- A search finds the first name that passes, in the order of the waves. -/
theorem nearest?_eq_some_iff {x : String} : nearest? m out test ∅ start = some x ↔
    ∃ k, (wave m out start k).find? (passes m test) = some x ∧
      ∀ j < k, ∀ y ∈ wave m out start j, passes m test y = false := by
  have hfinds {k : Nat} {y : String} (hy : (wave m out start k).find? (passes m test) = some y)
      (hfails : ∀ j < k, ∀ z ∈ wave m out start j, passes m test z = false) :
      nearest? m out test ∅ start = some y := by
    obtain ⟨seen, queue, hround, hsearch⟩ := exists_round hfails
    rw [hsearch, hround.nearest? hfails, hy, Option.some_or]
  constructor
  · intro hx
    obtain ⟨hpasses, k, hwave⟩ := mem_wave_of_nearest? (fun y hy => ⟨0, hy⟩) hx
    obtain ⟨j, y, hy, hfails⟩ := exists_first hwave hpasses
    rw [hfinds hy hfails, Option.some_inj] at hx
    exact ⟨j, hx ▸ hy, hfails⟩
  · rintro ⟨k, hy, hfails⟩
    exact hfinds hy hfails

/-- A search finds nothing exactly if no name passes in any wave. -/
theorem nearest?_eq_none_iff : nearest? m out test ∅ start = none ↔
    ∀ k, ∀ x ∈ wave m out start k, passes m test x = false := by
  constructor
  · intro hnone k x hx
    by_contra hpasses
    obtain ⟨j, y, hy⟩ := exists_first hx (by simpa using hpasses)
    rw [nearest?_eq_some_iff.mpr ⟨j, hy⟩] at hnone
    cases hnone
  · intro hfails
    apply Option.eq_none_iff_forall_ne_some.mpr
    intro x hx
    obtain ⟨hpasses, k, hwave⟩ := mem_wave_of_nearest? (fun y hy => ⟨0, hy⟩) hx
    rw [hfails k x hwave] at hpasses
    cases hpasses

end Reach

end ClassAtlas
