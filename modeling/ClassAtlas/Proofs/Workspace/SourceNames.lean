import ClassAtlas.Proofs.Calls.References
import ClassAtlas.Proofs.Workspace.Precedence
import ClassAtlas.Workspace.Session
import Mathlib.Data.Nat.Find

/-!
Names in source texts. A name stands for the least nested unit that it can mean: the candidates make
one slash after the other, from the last, a dollar sign, and the first that is a unit is taken. The
source name of a unit stands for a unit of that source name again.
-/

namespace ClassAtlas

namespace Name

/-! ### Candidates -/

theorem nest_zero (cs : List Char) : nest 0 cs = cs := by
  cases cs <;> rfl

theorem nest_nil (n : Nat) : nest n [] = [] := by
  cases n <;> rfl

theorem nest_slash (n : Nat) (cs : List Char) : nest (n + 1) ('/' :: cs) = '$' :: nest n cs := rfl

theorem nest_cons {c : Char} (hc : c ≠ '/') (n : Nat) (cs : List Char) :
    nest n (c :: cs) = c :: nest n cs := by
  cases n with
  | zero => rw [nest_zero, nest_zero]
  | succ n => simp [nest, hc]

theorem nest_append {front : List Char} (h : '/' ∉ front) (n : Nat) (back : List Char) :
    nest n (front ++ back) = front ++ nest n back := by
  induction front with
  | nil => rfl
  | cons c front ih =>
    rw [List.mem_cons, not_or] at h
    rw [List.cons_append, nest_cons (Ne.symm h.1), ih h.2, List.cons_append]

theorem nest_of_notMem {cs : List Char} (h : '/' ∉ cs) (n : Nat) : nest n cs = cs := by
  have hwhole := nest_append h n []
  rwa [List.append_nil, nest_nil, List.append_nil] at hwhole

theorem nest_nest (m n : Nat) (cs : List Char) : nest m (nest n cs) = nest (n + m) cs := by
  induction cs generalizing n with
  | nil => rw [nest_nil, nest_nil, nest_nil]
  | cons c cs ih =>
    by_cases hc : c = '/'
    · subst hc
      cases n with
      | zero => rw [nest_zero, Nat.zero_add]
      | succ n => rw [nest_slash, nest_cons (by decide), ih, Nat.succ_add, nest_slash]
    · rw [nest_cons hc, nest_cons hc, nest_cons hc, ih]

theorem map_nest {f : Char → Char} (hf : f '$' = f '/') (n : Nat) (cs : List Char) :
    (nest n cs).map f = cs.map f := by
  induction cs generalizing n with
  | nil => rw [nest_nil]
  | cons c cs ih =>
    by_cases hc : c = '/'
    · subst hc
      cases n with
      | zero => rw [nest_zero]
      | succ n => rw [nest_slash, List.map_cons, List.map_cons, ih, hf]
    · rw [nest_cons hc, List.map_cons, List.map_cons, ih]

/-- Only dollar signs are new. -/
theorem mem_of_mem_nest {c : Char} {n : Nat} {cs : List Char} (h : c ∈ nest n cs) (hc : c ≠ '$') :
    c ∈ cs := by
  induction cs generalizing n with
  | nil =>
    rw [nest_nil] at h
    exact h
  | cons x cs ih =>
    cases n with
    | zero =>
      rw [nest_zero] at h
      exact h
    | succ n =>
      by_cases hx : x = '/'
      · subst hx
        rw [nest_slash, List.mem_cons] at h
        exact List.mem_cons_of_mem _ (ih (h.resolve_left hc))
      · rw [nest_cons hx, List.mem_cons] at h
        rcases h with rfl | h
        · exact List.mem_cons_self
        · exact List.mem_cons_of_mem _ (ih h)

theorem count_nest (n : Nat) (cs : List Char) :
    (nest n cs).count '/' = cs.count '/' - n ∧
      (nest n cs).count '$' = cs.count '$' + min n (cs.count '/') := by
  induction cs generalizing n with
  | nil => simp [nest_nil]
  | cons c cs ih =>
    cases n with
    | zero => simp [nest_zero]
    | succ n =>
      by_cases hc : c = '/'
      · subst hc
        obtain ⟨hslashes, hdollars⟩ := ih n
        rw [nest_slash]
        simp only [List.count_cons, hslashes, hdollars]
        simp
        omega
      · obtain ⟨hslashes, hdollars⟩ := ih (n + 1)
        rw [nest_cons hc]
        simp only [List.count_cons, hslashes, hdollars]
        simp [hc]
        omega

theorem toList_nestLast (n : Nat) (name : String) :
    (nestLast n name).toList = (nest n name.toList.reverse).reverse :=
  String.toList_ofList

theorem nestLast_zero (name : String) : nestLast 0 name = name := by
  rw [nestLast, nest_zero, List.reverse_reverse, String.ofList_toList]

theorem nestLast_nestLast (m n : Nat) (name : String) :
    nestLast m (nestLast n name) = nestLast (n + m) name := by
  rw [nestLast, toList_nestLast, List.reverse_reverse, nest_nest, nestLast]

theorem nestLast_of_notMem {name : String} (h : '/' ∉ name.toList) (n : Nat) :
    nestLast n name = name := by
  have hreverse : '/' ∉ name.toList.reverse := by simpa using h
  rw [nestLast, nest_of_notMem hreverse, List.reverse_reverse, String.ofList_toList]

theorem count_nestLast (n : Nat) (name : String) :
    (nestLast n name).toList.count '/' = name.toList.count '/' - n ∧
      (nestLast n name).toList.count '$' =
        name.toList.count '$' + min n (name.toList.count '/') := by
  have hcounts := count_nest n name.toList.reverse
  rw [List.count_reverse, List.count_reverse] at hcounts
  rwa [toList_nestLast, List.count_reverse, List.count_reverse]

theorem nestLast_of_le {n : Nat} {name : String} (h : name.toList.count '/' ≤ n) :
    nestLast n name = nestLast (name.toList.count '/') name := by
  have hnone : '/' ∉ (nestLast (name.toList.count '/') name).toList := by
    rw [← List.count_eq_zero, (count_nestLast _ _).1, Nat.sub_self]
  rw [← Nat.add_sub_cancel' h, ← nestLast_nestLast, nestLast_of_notMem hnone]

/-! ### The two forms -/

theorem toList_toInternal (name : String) :
    (toInternal name).toList = name.toList.map fun c => if c = '.' then '/' else c := by
  simp [toInternal, replaceChar]

theorem toList_toSource (name : String) :
    (toSource name).toList = name.toList.map fun c => if c = '/' ∨ c = '$' then '.' else c := by
  simp only [toSource, replaceChar, String.toList_ofList, List.map_map]
  apply List.map_congr_left
  intro c _
  by_cases hslash : c = '/'
  · simp [hslash]
  · simp [hslash]

theorem toList_toInternal_toSource (name : String) :
    (toInternal (toSource name)).toList =
      name.toList.map fun c => if c = '$' ∨ c = '.' then '/' else c := by
  rw [toList_toInternal, toList_toSource, List.map_map]
  apply List.map_congr_left
  intro c _
  by_cases hslash : c = '/'
  · simp [hslash]
  · by_cases hdollar : c = '$'
    · simp [hdollar]
    · simp [hslash, hdollar]

theorem toSource_toInternal (name : String) : toSource (toInternal name) = toSource name := by
  rw [← String.toList_inj, toList_toSource, toList_toSource, toList_toInternal, List.map_map]
  apply List.map_congr_left
  intro c _
  by_cases hdot : c = '.'
  · simp [hdot]
  · simp [hdot]

theorem toSource_toSource (name : String) : toSource (toSource name) = toSource name := by
  rw [← String.toList_inj, toList_toSource, toList_toSource, List.map_map]
  apply List.map_congr_left
  intro c _
  by_cases hpart : c = '/' ∨ c = '$'
  · simp [hpart]
  · simp [hpart]

theorem toSource_nestLast (n : Nat) (name : String) :
    toSource (nestLast n name) = toSource name := by
  rw [← String.toList_inj, toList_toSource, toList_toSource, toList_nestLast, List.map_reverse,
    map_nest (by simp), List.map_reverse, List.reverse_reverse]

theorem toSource_eq_empty {name : String} : toSource name = "" ↔ name = "" := by
  rw [← String.toList_eq_nil_iff, toList_toSource, List.map_eq_nil_iff, String.toList_eq_nil_iff]

theorem notMem_toInternal (name : String) : '.' ∉ (toInternal name).toList := by
  rw [toList_toInternal]
  simp only [List.mem_map, not_exists, not_and]
  intro c _
  by_cases hdot : c = '.'
  · simp [hdot]
  · simp [hdot]

theorem notMem_nestLast {name : String} (h : '.' ∉ name.toList) (n : Nat) :
    '.' ∉ (nestLast n name).toList := by
  rw [toList_nestLast, List.mem_reverse]
  intro hin
  have hname := mem_of_mem_nest hin (by decide)
  exact h (List.mem_reverse.mp hname)

/-! ### Rounds -/

/-- The internal name with its last slash replaced by a dollar sign, if it has one. -/
def nestOnce? (name : String) : Option String :=
  (MethodRef.splitLast? '/' name.toList).map fun (before, behind) =>
    String.ofList (before ++ '$' :: behind)

theorem nestOnce?_eq (name : String) :
    nestOnce? name = if '/' ∈ name.toList then some (nestLast 1 name) else none := by
  by_cases h : '/' ∈ name.toList
  · obtain ⟨before, behind, hbehind, hname⟩ := MethodRef.exists_last h
    have hreverse : '/' ∉ behind.reverse := by simpa using hbehind
    have hchars : name.toList.reverse = behind.reverse ++ '/' :: before.reverse := by
      rw [hname]
      simp
    rw [if_pos h, nestOnce?, nestLast, hchars, nest_append hreverse, nest_slash, nest_zero, hname,
      MethodRef.splitLast?_append hbehind]
    simp
  · rw [if_neg h, nestOnce?, MethodRef.splitLast?_eq_none h, Option.map_none]

/-! ### Source names of units -/

/-- Every dollar sign stands behind every slash. -/
def NestsLast (name : String) : Prop :=
  name.toList.Pairwise fun a b => a = '$' → b ≠ '/'

instance {name : String} : Decidable (NestsLast name) :=
  inferInstanceAs (Decidable (List.Pairwise _ _))

/-- Reading from the end, as many slashes as there were dollar signs are the ones that these were. -/
theorem nest_count {cs : List Char} (hdot : '.' ∉ cs)
    (h : cs.Pairwise fun a b => b = '$' → a ≠ '/') :
    nest (cs.count '$') (cs.map fun c => if c = '$' ∨ c = '.' then '/' else c) = cs := by
  induction cs with
  | nil => rfl
  | cons c cs ih =>
    obtain ⟨hfirst, hrest⟩ := List.pairwise_cons.mp h
    rw [List.mem_cons, not_or] at hdot
    have hagain := ih hdot.2 hrest
    by_cases hdollar : c = '$'
    · subst hdollar
      rw [List.count_cons_self, List.map_cons, if_pos (.inl rfl), nest_slash, hagain]
    · rw [List.count_cons_of_ne hdollar, List.map_cons, if_neg (by simp [hdollar, Ne.symm hdot.1])]
      by_cases hslash : c = '/'
      · -- no dollar sign is left behind a slash, so nothing is to be replaced any more
        have hnone : cs.count '$' = 0 := by
          rw [List.count_eq_zero]
          intro hin
          exact hfirst '$' hin rfl hslash
        rw [hnone, nest_zero] at hagain ⊢
        rw [hagain]
      · rw [nest_cons hslash, hagain]

/-- The name of a unit is one of the candidates of its source name, by its own number of dollar
signs. -/
theorem nestLast_count {u : String} (hdot : '.' ∉ u.toList) (h : NestsLast u) :
    nestLast (u.toList.count '$') (toInternal (toSource u)) = u := by
  have hreverse : u.toList.reverse.Pairwise fun a b => b = '$' → a ≠ '/' := by
    rwa [List.pairwise_reverse]
  have hrestored := nest_count (by simpa using hdot) hreverse
  rw [List.count_reverse, List.map_reverse] at hrestored
  rw [nestLast, toList_toInternal_toSource, hrestored, List.reverse_reverse, String.ofList_toList]

theorem count_toInternal_toSource (u : String) :
    (toInternal (toSource u)).toList.count '$' = 0 := by
  rw [List.count_eq_zero, toList_toInternal_toSource]
  simp only [List.mem_map, not_exists, not_and]
  intro c _
  by_cases hdollar : c = '$'
  · simp [hdollar]
  · by_cases hdot : c = '.'
    · simp [hdot]
    · simp [hdollar, hdot]

end Name

namespace LayerStack

/-- The rounds of a look-up: a name that is no unit is tried again with its last slash replaced,
until one is found or no slash is left. -/
inductive Searches (s : LayerStack) : String → Option String → Prop
  | found {name : String} (h : s.hasUnit name = true) : Searches s name (some name)
  | nested {name next : String} {found : Option String} (h : s.hasUnit name = false)
    (hnext : Name.nestOnce? name = some next) (hrest : Searches s next found) :
    Searches s name found
  | missed {name : String} (h : s.hasUnit name = false) (hnext : Name.nestOnce? name = none) :
    Searches s name none

variable {s : LayerStack} {name : String}

theorem searches_of_hasUnit (h : s.hasUnit name = true) {found : Option String} :
    s.Searches name found ↔ found = some name := by
  constructor
  · intro hsearch
    cases hsearch with
    | found => rfl
    | nested hnone => simp [h] at hnone
    | missed hnone => simp [h] at hnone
  · intro hfound
    rw [hfound]
    exact .found h

/-- A name that is no unit is looked up as the next candidate is, if there is one. -/
theorem searches_of_not_hasUnit (h : s.hasUnit name = false) {found : Option String} :
    s.Searches name found ↔ if '/' ∈ name.toList then s.Searches (Name.nestLast 1 name) found
      else found = none := by
  have hnext := Name.nestOnce?_eq name
  constructor
  · intro hsearch
    cases hsearch with
    | found hunit => simp [h] at hunit
    | nested _ hnested hrest =>
      rw [hnested] at hnext
      split_ifs at hnext with hslash
      rw [if_pos hslash, ← Option.some_inj.mp hnext]
      exact hrest
    | missed _ hmissed =>
      rw [hmissed] at hnext
      split_ifs at hnext with hslash
      rw [if_neg hslash]
  · intro hrest
    split_ifs at hrest hnext with hslash
    · exact .nested h hnext hrest
    · rw [hrest]
      exact .missed h hnext

/-- From a candidate on, the rounds go through the candidates that are left. -/
theorem searches_iff {k left : Nat} (h : k + left = name.toList.count '/') {found : Option String} :
    s.Searches (Name.nestLast k name) found ↔
      found = ((List.range' k (left + 1)).map (Name.nestLast · name)).find? s.hasUnit := by
  rw [List.range'_succ, List.map_cons, List.find?_cons]
  cases hunit : s.hasUnit (Name.nestLast k name) with
  | true => exact searches_of_hasUnit hunit
  | false =>
    have hslash : '/' ∈ (Name.nestLast k name).toList ↔ left ≠ 0 := by
      rw [← List.count_pos_iff, (Name.count_nestLast k name).1]
      omega
    rw [searches_of_not_hasUnit hunit]
    cases left with
    | zero => simp [hslash]
    | succ left =>
      -- the next candidate has one slash less, so the rounds come to an end
      rw [if_pos (hslash.mpr (Nat.succ_ne_zero left)), Name.nestLast_nestLast]
      exact searches_iff (by omega)

/-- Looking a name up ends, with what the name stands for. -/
theorem searches_resolveName (hname : name ≠ "") {found : Option String} :
    s.Searches (Name.toInternal name) found ↔ found = s.resolveName name := by
  have hempty : name.isEmpty = false := by simpa using hname
  have hrounds : s.Searches (Name.nestLast 0 (Name.toInternal name)) found ↔ _ :=
    searches_iff (Nat.zero_add _)
  rw [Name.nestLast_zero, ← List.range_eq_range'] at hrounds
  rw [hrounds, resolveName, hempty]
  rfl

theorem resolveName_eq_some (hname : name ≠ "") {c : String} : s.resolveName name = some c ↔
    ∃ k, c = Name.nestLast k (Name.toInternal name) ∧ s.hasUnit c = true ∧
      ∀ j < k, s.hasUnit (Name.nestLast j (Name.toInternal name)) = false := by
  have hempty : name.isEmpty = false := by simpa using hname
  rw [resolveName, hempty, if_neg (by decide), Name.candidates, List.find?_map,
    Option.map_eq_some_iff]
  simp only [List.find?_range_eq_some, Function.comp_apply, List.mem_range, Bool.not_eq_true']
  constructor
  · intro hfound
    obtain ⟨k, ⟨hunit, _, hbefore⟩, rfl⟩ := hfound
    exact ⟨k, rfl, hunit, hbefore⟩
  · intro hfirst
    obtain ⟨k, rfl, hunit, hbefore⟩ := hfirst
    refine ⟨k, ⟨hunit, ?_, hbefore⟩, rfl⟩
    -- once no slash is left, the candidates are all the same
    by_contra hlast
    have hsame : Name.nestLast k (Name.toInternal name) = _ := Name.nestLast_of_le (by omega)
    rw [hsame, hbefore _ (by omega)] at hunit
    cases hunit

theorem exists_candidate (hname : name ≠ "") {k : Nat}
    (h : s.hasUnit (Name.nestLast k (Name.toInternal name)) = true) :
    ∃ j ≤ k, s.resolveName name = some (Name.nestLast j (Name.toInternal name)) := by
  have hsome : ∃ k, s.hasUnit (Name.nestLast k (Name.toInternal name)) = true := ⟨k, h⟩
  refine ⟨Nat.find hsome, Nat.find_min' hsome h, ?_⟩
  rw [resolveName_eq_some hname]
  refine ⟨Nat.find hsome, rfl, Nat.find_spec hsome, ?_⟩
  intro j hj
  simpa using Nat.find_min hsome hj

theorem resolveName_eq_none (hname : name ≠ "") : s.resolveName name = none ↔
    ∀ k, s.hasUnit (Name.nestLast k (Name.toInternal name)) = false := by
  constructor
  · intro hnone k
    by_contra hunit
    obtain ⟨j, _, hfound⟩ := exists_candidate hname (by simpa using hunit)
    rw [hnone] at hfound
    cases hfound
  · intro hmissed
    apply Option.eq_none_iff_forall_ne_some.mpr
    intro c hc
    obtain ⟨k, rfl, hunit, _⟩ := (resolveName_eq_some hname).mp hc
    rw [hmissed k] at hunit
    cases hunit

theorem ne_empty_of_resolveName {c : String} (h : s.resolveName name = some c) : name ≠ "" := by
  intro hname
  rw [hname] at h
  cases h

theorem hasUnit_of_resolveName {c : String} (h : s.resolveName name = some c) :
    s.hasUnit c = true := by
  obtain ⟨_, _, hunit, _⟩ := (resolveName_eq_some (ne_empty_of_resolveName h)).mp h
  exact hunit

/-- What a name stands for is not looked up further. -/
theorem resolveName_again {c : String} (h : s.resolveName name = some c) :
    s.resolveName c = some c := by
  have hname := ne_empty_of_resolveName h
  obtain ⟨k, hc, hunit, _⟩ := (resolveName_eq_some hname).mp h
  have hdot : '.' ∉ c.toList := by
    rw [hc]
    exact Name.notMem_nestLast (Name.notMem_toInternal name) k
  have hne : c ≠ "" := by
    intro hempty
    have hsource := Name.toSource_eq_empty.mpr hempty
    rw [hc, Name.toSource_nestLast, Name.toSource_toInternal, Name.toSource_eq_empty] at hsource
    exact hname hsource
  rw [resolveName_eq_some hne, Name.toInternal_of_noDot hdot]
  exact ⟨0, (Name.nestLast_zero c).symm, hunit, by simp⟩

/-- The source name of a unit stands for a unit of that source name: the one itself, unless one with
fewer dollar signs comes first. -/
theorem resolveName_toSource {u : String} (hne : u ≠ "") (hunit : s.hasUnit u = true)
    (hdot : '.' ∉ u.toList) (hnests : Name.NestsLast u) :
    ∃ v, s.resolveName (Name.toSource u) = some v ∧ Name.toSource v = Name.toSource u ∧
      ((∀ x, s.hasUnit x = true → Name.toSource x = Name.toSource u →
        u.toList.count '$' ≤ x.toList.count '$') → v = u) := by
  have hsource : Name.toSource u ≠ "" := by rwa [Ne, Name.toSource_eq_empty]
  have hlast := Name.nestLast_count hdot hnests
  obtain ⟨j, hj, hfound⟩ := exists_candidate (s := s) hsource (by rwa [hlast])
  have hsame : Name.toSource (Name.nestLast j (Name.toInternal (Name.toSource u))) =
      Name.toSource u := by
    rw [Name.toSource_nestLast, Name.toSource_toInternal, Name.toSource_toSource]
  refine ⟨_, hfound, hsame, ?_⟩
  intro hfewest
  obtain ⟨_, _, hheld, _⟩ := (resolveName_eq_some hsource).mp hfound
  have hdollars := hfewest _ hheld hsame
  rw [(Name.count_nestLast _ _).2, Name.count_toInternal_toSource] at hdollars
  have hwhole : j = u.toList.count '$' := by omega
  rw [hwhole, hlast]

end LayerStack

namespace Workspace

/-- What a name stands for is found in finitely many rounds, and is the first candidate that is a
unit. It stands for itself, and it is what has members. -/
structure Resolves (w : Workspace) (name : String) : Prop where
  rounds : ∀ found, w.stack.Searches (Name.toInternal name) found ↔
    found = w.answer (Session.resolveName name)
  first : ∀ c, w.answer (Session.resolveName name) = some c ↔
    ∃ k, c = Name.nestLast k (Name.toInternal name) ∧ w.answer (Session.hasUnit c) = true ∧
      ∀ j < k, w.answer (Session.hasUnit (Name.nestLast j (Name.toInternal name))) = false
  missing : w.answer (Session.resolveName name) = none ↔
    ∀ k, w.answer (Session.hasUnit (Name.nestLast k (Name.toInternal name))) = false
  again : ∀ c, w.answer (Session.resolveName name) = some c →
    w.answer (Session.resolveName c) = some c
  members : w.answer (Session.members name) = .ok none ↔
    w.answer (Session.hasType name) = false

theorem answer_bind {α β : Type} (w : Workspace) (question : Session α) (next : α → Session β) :
    w.answer (question >>= next) = (question.run w).2.answer (next (w.answer question)) := rfl

theorem answer_resolveName (w : Workspace) (name : String) :
    w.answer (Session.resolveName name) = w.stack.resolveName name := by
  unfold Session.resolveName
  by_cases hempty : name.isEmpty = true
  · rw [if_pos hempty, LayerStack.resolveName, if_pos hempty]
    rfl
  · rw [if_neg hempty]
    rfl

theorem resolveName_stack (w : Workspace) (name : String) :
    ((Session.resolveName name).run w).2.stack = w.stack := by
  unfold Session.resolveName
  by_cases hempty : name.isEmpty = true
  · rw [if_pos hempty]
    rfl
  · rw [if_neg hempty]
    rfl

theorem answer_hasType (w : Workspace) (name : String) :
    w.answer (Session.hasType name) = (w.stack.resolveName name).isSome := by
  rw [← answer_resolveName]
  rfl

/-- Nothing but a name without a unit has no declaration. A unit has one or cannot be decoded. -/
theorem answer_decodeUnit (w : Workspace) (name : String) :
    w.answer (Session.decodeUnit name) = .ok none ↔ w.stack.hasUnit name = false := by
  rw [Session.decodeUnit, answer_bind, answer_bind, ← w.stack.unit?_isSome name]
  cases hfound : w.stack.unit? name with
  | none =>
    have hnone : w.answer (Session.unit? name) = none := hfound
    rw [hnone]
    exact iff_of_true rfl rfl
  | some u =>
    have hunit : w.answer (Session.unit? name) = some u := hfound
    rw [hunit]
    refine iff_of_false ?_ (by simp)
    dsimp only
    intro h
    split at h
    · cases h
    · cases h

theorem answer_members (w : Workspace) (name : String) :
    w.answer (Session.members name) = .ok none ↔ w.stack.resolveName name = none := by
  rw [Session.members, answer_bind, answer_resolveName]
  cases hfound : w.stack.resolveName name with
  | none => exact iff_of_true rfl rfl
  | some unit =>
    refine iff_of_false ?_ (by simp)
    dsimp only
    rw [answer_bind]
    intro h
    split at h
    · cases h
    · rename_i hnone
      rw [answer_decodeUnit, resolveName_stack, LayerStack.hasUnit_of_resolveName hfound] at hnone
      cases hnone
    · cases h

theorem resolves (w : Workspace) {name : String} (hname : name ≠ "") : w.Resolves name where
  rounds found := by
    rw [answer_resolveName]
    exact LayerStack.searches_resolveName hname
  first c := by
    rw [answer_resolveName]
    exact LayerStack.resolveName_eq_some hname
  missing := by
    rw [answer_resolveName]
    exact LayerStack.resolveName_eq_none hname
  again c hc := by
    rw [answer_resolveName] at hc ⊢
    exact LayerStack.resolveName_again hc
  members := by
    rw [answer_members, answer_hasType, Option.isSome_eq_false_iff, Option.isNone_iff_eq_none]

/-- Every name is looked up to the end and stands for its least nested candidate, and the source name
of a unit stands for a unit of that source name, the one itself if none has fewer dollar signs. A
source name has dots for slashes and dollar signs, and its internal form has slashes for dots. -/
theorem resolution_inverts (w : Workspace) :
    (∀ name, (Name.toSource name).toList =
        name.toList.map fun c => if c = '/' ∨ c = '$' then '.' else c) ∧
    (∀ name, (Name.toInternal name).toList = name.toList.map fun c => if c = '.' then '/' else c) ∧
    (∀ name, name ≠ "" → w.Resolves name) ∧
    ∀ u, u ≠ "" → w.answer (Session.hasUnit u) = true → '.' ∉ u.toList → Name.NestsLast u →
      ∃ v, w.answer (Session.resolveName (Name.toSource u)) = some v ∧
        Name.toSource v = Name.toSource u ∧
        ((∀ x, w.answer (Session.hasUnit x) = true → Name.toSource x = Name.toSource u →
          u.toList.count '$' ≤ x.toList.count '$') → v = u) := by
  refine ⟨Name.toList_toSource, Name.toList_toInternal, fun name hname => w.resolves hname, ?_⟩
  intro u hne hunit hdot hnests
  rw [answer_resolveName]
  exact LayerStack.resolveName_toSource hne hunit hdot hnests

/-- A project with a class and a class nested in it. -/
def nested : Workspace :=
  .ofLayers (((Layer.empty "app" .primary).insertUnit ⟨"app/Outer", []⟩).insertUnit
    ⟨"app/Outer$Inner", []⟩) [] .empty "app.jar"

theorem hasUnit_nested {name : String} : nested.answer (Session.hasUnit name) = true ↔
    "app/Outer$Inner" = name ∨ "app/Outer" = name := by
  change nested.stack.hasUnit name = true ↔ _
  simp [nested, stack, ofLayers, LayerStack.hasUnit, LayerStack.layers, Layer.containsUnit,
    Layer.withKind, Layer.insertUnit, Layer.empty, RuntimeClasspath.empty,
    RuntimeClasspath.ofLayer]

/-- The class is tried first, then the nested class is found. -/
theorem inner_found : "app.Outer.Inner" ≠ "" ∧
    nested.answer (Session.hasUnit "app/Outer$Inner") = true ∧
    '.' ∉ "app/Outer$Inner".toList ∧ Name.NestsLast "app/Outer$Inner" ∧
    nested.answer (Session.resolveName "app.Outer.Inner") = some "app/Outer$Inner" ∧
    nested.stack.Searches "app/Outer/Inner" (some "app/Outer$Inner") := by
  obtain ⟨_, _, hresolves, hinverts⟩ := resolution_inverts nested
  have hunit : nested.answer (Session.hasUnit "app/Outer$Inner") = true := rfl
  have hsource : Name.toSource "app/Outer$Inner" = "app.Outer.Inner" := by decide
  have hnests : Name.NestsLast "app/Outer$Inner" := by decide
  obtain ⟨v, hv, _, hsame⟩ := hinverts "app/Outer$Inner" (by decide) hunit (by decide) hnests
  have hinner : v = "app/Outer$Inner" := by
    apply hsame
    intro x hx hshared
    rcases hasUnit_nested.mp hx with rfl | rfl
    · exact Nat.le_refl _
    · exact absurd hshared (by decide)
  rw [hsource, hinner] at hv
  have hrounds := (hresolves "app.Outer.Inner" (by decide)).rounds (some "app/Outer$Inner")
  exact ⟨by decide, hunit, by decide, hnests, hv, hrounds.mpr hv.symm⟩

end Workspace

end ClassAtlas
