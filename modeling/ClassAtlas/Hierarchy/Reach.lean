import Std.Data.TreeMap
import Std.Data.TreeSet
import Std.Data.TreeMap.Lemmas
import Std.Data.TreeSet.Lemmas

/-!
Searches over maps from names to what lies behind them. Only names with an entry lead on, so a
search that goes through no entry twice ends.
-/

namespace ClassAtlas

/-- A name that drops out makes the count of those left smaller. -/
theorem countP_lt_countP {α : Type} {p q : α → Bool} {l : List α} {x : α}
    (himp : ∀ y ∈ l, p y = true → q y = true) (hx : x ∈ l) (hq : q x = true) (hp : p x = false) :
    l.countP p < l.countP q := by
  induction l with
  | nil => simp at hx
  | cons a l ih =>
    have hle : l.countP p ≤ l.countP q :=
      List.countP_mono_left fun y hy => himp y (List.mem_cons_of_mem a hy)
    rcases List.mem_cons.mp hx with rfl | hx
    · rw [List.countP_cons_of_pos hq, List.countP_cons_of_neg (by simp [hp])]
      omega
    · have hlt := ih (fun y hy => himp y (List.mem_cons_of_mem a hy)) hx
      have ha : (if p a = true then 1 else 0) ≤ (if q a = true then 1 else 0) := by
        by_cases h : p a = true
        · simp [h, himp a List.mem_cons_self h]
        · simp [h]
      simp only [List.countP_cons]
      omega

namespace Reach

variable {β : Type}

/-- The number of entries of a map that a search has not come to. -/
def ahead (m : Std.TreeMap String β) (seen : Std.TreeSet String) : Nat :=
  m.keys.countP fun name => !seen.contains name

/-- Coming to a new entry leaves fewer ahead. -/
theorem ahead_insert_lt {m : Std.TreeMap String β} {seen : Std.TreeSet String} {name : String}
    {b : β} (hm : m[name]? = some b) (hs : seen.contains name = false) :
    ahead m (seen.insert name) < ahead m seen := by
  have hmem : name ∈ m := by
    rw [Std.TreeMap.mem_iff_isSome_getElem?, hm]
    rfl
  refine countP_lt_countP (x := name) ?_ (Std.TreeMap.mem_keys.mpr hmem) (by simp [hs]) (by simp)
  intro y _ hy
  simp only [Std.TreeSet.contains_insert, Bool.not_or, Bool.and_eq_true] at hy
  exact hy.2

/-- Coming to a name leaves no more entries ahead. -/
theorem ahead_insert_le (m : Std.TreeMap String β) (seen : Std.TreeSet String) (name : String) :
    ahead m (seen.insert name) ≤ ahead m seen := by
  refine List.countP_mono_left fun y _ hy => ?_
  simp only [Std.TreeSet.contains_insert, Bool.not_or, Bool.and_eq_true] at hy
  exact hy.2

/-- The names seen so far, together with all that can be reached from those pending. The start is
left out, and `out` says where an entry leads. -/
def spread (m : Std.TreeMap String β) (out : β → List String) (start : String)
    (seen : Std.TreeSet String) (pending : List String) : Std.TreeSet String :=
  match pending with
  | [] => seen
  | name :: pending =>
    if name == start then spread m out start seen pending
    else
      match _hs : seen.contains name with
      | true => spread m out start seen pending
      | false =>
        match _hm : m[name]? with
        | none => spread m out start (seen.insert name) pending
        | some b => spread m out start (seen.insert name) (out b ++ pending)
termination_by (ahead m seen, pending.length)
decreasing_by
  · exact Prod.Lex.right _ (by simp)
  · exact Prod.Lex.right _ (by simp)
  · rcases Nat.lt_or_eq_of_le (ahead_insert_le m seen name) with h | h
    · exact Prod.Lex.left _ _ h
    · rw [h]
      exact Prod.Lex.right _ (by simp)
  · exact Prod.Lex.left _ _ (ahead_insert_lt _hm _hs)

/-- All names that can be reached from a name in one step or more, itself left out. -/
def reach (m : Std.TreeMap String β) (out : β → List String) (start : String) :
    Std.TreeSet String :=
  spread m out start ∅ ((m[start]?.map out).getD [])

/-- The first name that passes a test among those pending and the ones they lead to, nearer ones
before farther ones. -/
def nearest? (m : Std.TreeMap String β) (out : β → List String) (test : β → Bool)
    (seen : Std.TreeSet String) (pending : List String) : Option String :=
  match pending with
  | [] => none
  | name :: pending =>
    match _hs : seen.contains name with
    | true => nearest? m out test seen pending
    | false =>
      match _hm : m[name]? with
      | none => nearest? m out test (seen.insert name) pending
      | some b =>
        if test b then some name
        else nearest? m out test (seen.insert name) (pending ++ out b)
termination_by (ahead m seen, pending.length)
decreasing_by
  · exact Prod.Lex.right _ (by simp)
  · rcases Nat.lt_or_eq_of_le (ahead_insert_le m seen name) with h | h
    · exact Prod.Lex.left _ _ h
    · rw [h]
      exact Prod.Lex.right _ (by simp)
  · exact Prod.Lex.left _ _ (ahead_insert_lt _hm _hs)

/-- The names passed so far, the latest first, followed by those that `next` leads to from a name.
The path ends at a name without an entry and before one that it has passed. -/
def path (m : Std.TreeMap String β) (next : β → Option String) (passed : List String)
    (name : String) : List String :=
  match _hm : m[name]? with
  | none => passed.reverse
  | some b =>
    if _hs : passed.contains name then passed.reverse
    else
      match next b with
      | none => (name :: passed).reverse
      | some following => path m next (name :: passed) following
termination_by m.keys.countP fun name => !passed.contains name
decreasing_by
  have hmem : name ∈ m := by
    rw [Std.TreeMap.mem_iff_isSome_getElem?, _hm]
    rfl
  refine countP_lt_countP (x := name) ?_ (Std.TreeMap.mem_keys.mpr hmem) (by simpa using _hs)
    (by simp)
  intro y _ hy
  simp only [List.contains_cons, Bool.not_or, Bool.and_eq_true] at hy
  exact hy.2

end Reach

end ClassAtlas
