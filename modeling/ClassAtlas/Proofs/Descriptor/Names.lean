import ClassAtlas.Proofs.Descriptor.Grammar
import Mathlib.Algebra.GroupWithZero.Nat

/-!
The descriptors that a class file may hold. Their class names are made of any characters that do not
part names or types, so they may have parentheses. Every such descriptor is taken apart into its
parts unless one of its parameters has a closing parenthesis; then it is refused.
-/

namespace ClassAtlas

namespace FieldType

def IsUnqualified (name : List Char) : Prop :=
  name ≠ [] ∧ ∀ c ∈ name, c ∉ ['.', ';', '[', '/']

/-- The name of a class: unqualified names with slashes between them. -/
def IsClassName (name : List Char) : Prop :=
  ∃ segments : List (List Char), segments ≠ [] ∧ (∀ s ∈ segments, IsUnqualified s) ∧
    name = ['/'].intercalate segments

/-- The element type of an array, or any type that is not one. -/
inductive IsElement : List Char → Prop
  | primitive {c : Char} (h : c ∈ ['B', 'C', 'D', 'F', 'I', 'J', 'S', 'Z']) : IsElement [c]
  | object {name : List Char} (h : IsClassName name) : IsElement ('L' :: (name ++ [';']))

/-- A type that a class file may name: an element type with at most 255 dimensions. -/
def IsLegal (type : List Char) : Prop :=
  ∃ dims element, dims ≤ 255 ∧ IsElement element ∧ type = List.replicate dims '[' ++ element

theorem intercalate_ne_nil {segments : List (List Char)} (hne : segments ≠ [])
    (h : ∀ s ∈ segments, IsUnqualified s) : ['/'].intercalate segments ≠ [] := by
  cases segments with
  | nil => exact absurd rfl hne
  | cons s segments =>
    have hs := (h s List.mem_cons_self).1
    cases segments with
    | nil => simpa using hs
    | cons s' segments =>
      rw [List.intercalate_cons_cons]
      simp

/-- What parts names or types is in no name of a class. -/
theorem not_mem_intercalate {c : Char} (hc : c ∈ ['.', ';', '[']) {segments : List (List Char)}
    (h : ∀ s ∈ segments, IsUnqualified s) : c ∉ ['/'].intercalate segments := by
  have hslash : c ≠ '/' := by
    intro hsame
    rw [hsame] at hc
    exact absurd hc (by decide)
  have hsegment {s : List Char} (hs : IsUnqualified s) : c ∉ s := by
    intro hin
    exact hs.2 c hin (List.mem_append_left ['/'] hc)
  induction segments with
  | nil => simp
  | cons s segments ih =>
    obtain ⟨hs, hrest⟩ := List.forall_mem_cons.mp h
    cases segments with
    | nil => simpa using hsegment hs
    | cons s' segments =>
      have hmore := ih hrest
      rw [List.intercalate_cons_cons]
      simp only [List.mem_append, List.mem_singleton, not_or]
      exact ⟨⟨hsegment hs, hslash⟩, hmore⟩

theorem IsElement.isType {element : List Char} (h : IsElement element) : IsType element := by
  cases h with
  | primitive h => exact .primitive h
  | object h =>
    obtain ⟨segments, hne, hsegments, rfl⟩ := h
    exact .object (intercalate_ne_nil hne hsegments) (not_mem_intercalate (by decide) hsegments)

theorem IsType.brackets {type : List Char} (h : IsType type) (dims : Nat) :
    IsType (List.replicate dims '[' ++ type) := by
  induction dims with
  | zero => exact h
  | succ dims ih =>
    rw [List.replicate_succ, List.cons_append]
    exact .array ih

theorem IsLegal.isType {type : List Char} (h : IsLegal type) : IsType type := by
  obtain ⟨dims, element, _, helement, rfl⟩ := h
  exact helement.isType.brackets dims

/-- Values of the two wide primitive types take two slots, all others one. -/
theorem slots_eq {type : String} (h : IsType type.toList) :
    slots type = if type = "J" ∨ type = "D" then 2 else 1 := by
  have hlong : type = "J" ↔ type.toList = ['J'] := by
    rw [← String.toList_inj]
    rfl
  have hdouble : type = "D" ↔ type.toList = ['D'] := by
    rw [← String.toList_inj]
    rfl
  simp only [slots, hlong, hdouble]
  generalize type.toList = cs at h
  cases h with
  | @primitive c h =>
    simp only [List.mem_cons, List.not_mem_nil, or_false] at h
    rcases h with rfl | rfl | rfl | rfl | rfl | rfl | rfl | rfl <;> simp
  | object hname hend => simp
  | array h => simp

end FieldType

namespace MethodType

open FieldType

theorem paramSlots_eq {m : MethodType} (h : ∀ p ∈ m.params, IsType p.toList) :
    m.paramSlots = (m.params.map fun p => if p = "J" ∨ p = "D" then 2 else 1).sum := by
  obtain ⟨params, ret⟩ := m
  simp only [paramSlots] at h ⊢
  induction params with
  | nil => rfl
  | cons p params ih =>
    obtain ⟨hp, hparams⟩ := List.forall_mem_cons.mp h
    rw [List.foldr_cons, ih hparams, slots_eq hp, List.map_cons, List.sum_cons]

/-- The descriptor of any legal types is taken apart into them, unless a parameter has a closing
parenthesis in the name of its class. The parenthesis is then taken for the end of the parameters. -/
theorem parse_legal {params : List String} {ret : String}
    (hparams : ∀ p ∈ params, IsLegal p.toList) (hret : ret = "V" ∨ IsLegal ret.toList) :
    parse (assemble params ret) =
        (if ∃ p ∈ params, ')' ∈ p.toList then
          .error ⟨assemble params ret, .malformedDescriptor⟩
        else .ok ⟨params, ret⟩) ∧
      (⟨params, ret⟩ : MethodType).paramSlots =
        (params.map fun p => if p = "J" ∨ p = "D" then 2 else 1).sum := by
  have htypes : ∀ p ∈ params, IsType p.toList := fun p hp => (hparams p hp).isType
  have hreturn : ret = "V" ∨ IsType ret.toList := hret.imp_right IsLegal.isType
  refine ⟨?_, paramSlots_eq htypes⟩
  by_cases hclosing : ∃ p ∈ params, ')' ∈ p.toList
  · rw [if_pos hclosing]
    cases hparse : parse (assemble params ret) with
    | error e => rw [parse_eq_error hparse]
    | ok m =>
      -- these types are the only ones, and one of them has a closing parenthesis
      have hparts := Assembled.of_parse hparse
      obtain ⟨hsame, _⟩ := assemble_inj htypes hparts.params hparts.text
      obtain ⟨p, hp, hin⟩ := hclosing
      rw [hsame] at hp
      exact absurd hin (hparts.closed p hp)
  · rw [if_neg hclosing]
    have hclosed : ∀ p ∈ params, ')' ∉ p.toList := by
      intro p hp hin
      exact hclosing ⟨p, hp, hin⟩
    exact Assembled.parse_eq ⟨rfl, hclosed, htypes, hreturn⟩

/-- A method that takes an object of the class `app/Report$sum(x)`. -/
theorem parenthesized_refused :
    (∀ p ∈ ["Lapp/Report$sum(x);"], IsLegal p.toList) ∧
    parse "(Lapp/Report$sum(x);)V" = .error ⟨"(Lapp/Report$sum(x);)V", .malformedDescriptor⟩ := by
  have hname : IsClassName "app/Report$sum(x)".toList := by
    refine ⟨["app".toList, "Report$sum(x)".toList], by simp, ?_, rfl⟩
    simp [IsUnqualified]
  have hlegal : ∀ p ∈ ["Lapp/Report$sum(x);"], IsLegal p.toList := by
    intro p hp
    obtain rfl := List.mem_singleton.mp hp
    exact ⟨0, _, by decide, .object hname, rfl⟩
  obtain ⟨hparse, _⟩ := parse_legal hlegal (.inl rfl)
  refine ⟨hlegal, ?_⟩
  rw [if_pos ⟨_, List.mem_cons_self, by decide⟩] at hparse
  exact hparse

end MethodType

end ClassAtlas
