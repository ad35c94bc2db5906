import Mathlib.Data.List.Forall2

/-!
Steps that may fail, taken for one item of a list after the other.
-/

namespace ClassAtlas

variable {α β ε : Type}

/-- A pass over a list succeeds exactly if it does for every item, and yields what it yields there. -/
theorem mapM_eq_ok {f : α → Except ε β} {as : List α} {bs : List β} :
    as.mapM f = .ok bs ↔ List.Forall₂ (fun a b => f a = .ok b) as bs := by
  induction as generalizing bs with
  | nil =>
    rw [List.forall₂_nil_left_iff]
    constructor
    · intro h
      cases h
      rfl
    · rintro rfl
      rfl
  | cons a as ih =>
    rw [List.mapM_cons, List.forall₂_cons_left_iff]
    constructor
    · intro h
      cases ha : f a with
      | error e =>
        rw [ha] at h
        cases h
      | ok b =>
        cases has : as.mapM f with
        | error e =>
          rw [ha, has] at h
          cases h
        | ok rest =>
          rw [ha, has] at h
          cases h
          exact ⟨b, rest, rfl, ih.mp has, rfl⟩
    · rintro ⟨b, rest, ha, has, rfl⟩
      rw [ha, ih.mpr has]
      rfl

/-- A pass over a list fails with what the first item fails with for which it does. -/
theorem mapM_eq_error {f : α → Except ε β} {as : List α} {e : ε} :
    as.mapM f = .error e ↔ ∃ before a after, as = before ++ a :: after ∧
      (∀ x ∈ before, ∃ b, f x = .ok b) ∧ f a = .error e := by
  induction as with
  | nil =>
    constructor
    · intro h
      cases h
    · rintro ⟨before, a, after, has, -, -⟩
      cases before <;> cases has
  | cons x as ih =>
    rw [List.mapM_cons]
    cases hx : f x with
    | error cause =>
      constructor
      · intro h
        cases h
        exact ⟨[], x, as, rfl, by simp, hx⟩
      · rintro ⟨before, a, after, has, hbefore, ha⟩
        cases before with
        | nil =>
          cases has
          rw [hx] at ha
          cases ha
          rfl
        | cons y before =>
          cases has
          obtain ⟨b, hb⟩ := hbefore x List.mem_cons_self
          rw [hx] at hb
          cases hb
    | ok b =>
      have hrest : (do let rest ← as.mapM f; pure (b :: rest)) = .error e ↔
          as.mapM f = .error e := by
        cases as.mapM f with
        | error cause => exact Iff.rfl
        | ok rest => exact iff_of_false nofun nofun
      refine hrest.trans (ih.trans ?_)
      constructor
      · rintro ⟨before, a, after, rfl, hbefore, ha⟩
        exact ⟨x :: before, a, after, rfl, List.forall_mem_cons.mpr ⟨⟨b, hx⟩, hbefore⟩, ha⟩
      · rintro ⟨before, a, after, has, hbefore, ha⟩
        cases before with
        | nil =>
          cases has
          rw [hx] at ha
          cases ha
        | cons y before =>
          cases has
          exact ⟨before, a, after, rfl, (List.forall_mem_cons.mp hbefore).2, ha⟩

theorem mapM_congr {γ : Type} {f : α → Except ε γ} {g : β → Except ε γ} {as : List α} {bs : List β}
    (h : List.Forall₂ (fun a b => f a = g b) as bs) : as.mapM f = bs.mapM g := by
  induction h with
  | nil => rfl
  | cons hab _ ih => rw [List.mapM_cons, List.mapM_cons, hab, ih]

theorem mem_of_forall₂ {r : α → β → Prop} {as : List α} {bs : List β}
    (h : List.Forall₂ r as bs) {b : β} (hb : b ∈ bs) : ∃ a ∈ as, r a b := by
  induction h with
  | nil => cases hb
  | cons hr _ ih =>
    rcases List.mem_cons.mp hb with rfl | hb
    · exact ⟨_, List.mem_cons_self, hr⟩
    · obtain ⟨a, ha, hab⟩ := ih hb
      exact ⟨a, List.mem_cons_of_mem _ ha, hab⟩

theorem exists_forall₂ {r : α → β → Prop} {as : List α} (h : ∀ a ∈ as, ∃ b, r a b) :
    ∃ bs, List.Forall₂ r as bs := by
  induction as with
  | nil => exact ⟨[], .nil⟩
  | cons a as ih =>
    obtain ⟨b, hb⟩ := h a List.mem_cons_self
    obtain ⟨bs, hbs⟩ := ih fun a' ha' => h a' (List.mem_cons_of_mem _ ha')
    exact ⟨b :: bs, .cons hb hbs⟩

theorem forall₂_compose {γ : Type} {r : α → β → Prop} {s : β → γ → Prop} {t : α → γ → Prop}
    {as : List α} {bs : List β} {cs : List γ} (h : List.Forall₂ r as bs)
    (h' : List.Forall₂ s bs cs) (ht : ∀ a, ∀ b ∈ bs, ∀ c, r a b → s b c → t a c) :
    List.Forall₂ t as cs := by
  induction h generalizing cs with
  | nil =>
    cases h'
    exact .nil
  | cons hr _ ih =>
    obtain ⟨c, rest, hs, hrest, rfl⟩ := List.forall₂_cons_left_iff.mp h'
    exact .cons (ht _ _ List.mem_cons_self _ hr hs)
      (ih hrest fun a b hb => ht a b (List.mem_cons_of_mem _ hb))

/-- A search stops at the first item without the property. -/
theorem eq_of_dropWhile {p : α → Bool} {as back : List α} {a : α}
    (h : as.dropWhile p = a :: back) : p a = false ∧ as = as.takeWhile p ++ a :: back := by
  constructor
  · have ha := List.head?_dropWhile_not p as
    rw [h] at ha
    simpa using ha
  · rw [← h, List.takeWhile_append_dropWhile]

/-- The first place of an item parts a list in one way only. -/
theorem eq_of_first {a : α} {front front' back back' : List α} (h : a ∉ front) (h' : a ∉ front')
    (hsame : front ++ a :: back = front' ++ a :: back') : front = front' ∧ back = back' := by
  induction front generalizing front' with
  | nil =>
    cases front' with
    | nil => exact ⟨rfl, List.tail_eq_of_cons_eq hsame⟩
    | cons x front' =>
      cases hsame
      exact absurd List.mem_cons_self h'
  | cons x front ih =>
    cases front' with
    | nil =>
      cases hsame
      exact absurd List.mem_cons_self h
    | cons x' front' =>
      obtain ⟨hx, hrest⟩ := List.cons_eq_cons.mp hsame
      rw [List.mem_cons, not_or] at h h'
      obtain ⟨hfront, hback⟩ := ih h.2 h'.2 hrest
      exact ⟨by rw [hx, hfront], hback⟩

/-- Two related lists are related on both sides of an item. -/
theorem forall₂_around {r : α → β → Prop} {front back : List α} {a : α} {bs : List β}
    (h : List.Forall₂ r (front ++ a :: back) bs) :
    ∃ before b after, bs = before ++ b :: after ∧ List.Forall₂ r front before ∧ r a b ∧
      List.Forall₂ r back after := by
  induction front generalizing bs with
  | nil =>
    obtain ⟨b, after, hb, hafter, rfl⟩ := List.forall₂_cons_left_iff.mp h
    exact ⟨[], b, after, rfl, .nil, hb, hafter⟩
  | cons x front ih =>
    obtain ⟨y, rest, hy, hrest, rfl⟩ := List.forall₂_cons_left_iff.mp h
    obtain ⟨before, b, after, rfl, hfront, hb, hback⟩ := ih hrest
    exact ⟨y :: before, b, after, rfl, .cons hy hfront, hb, hback⟩

end ClassAtlas
