import ClassAtlas.Calls.MethodRef
import ClassAtlas.Proofs.Descriptor.Names
import Mathlib.Data.List.TakeDrop

/-!
Written references. The descriptor of a written reference starts at its first parenthesis, and the
last dot in front of that ends the owner. So a legal reference is read back unless a parenthesis
stands in its name, and then another legal reference is written alike.
-/

namespace ClassAtlas

theorem Name.toInternal_of_noDot {name : String} (h : '.' ∉ name.toList) :
    toInternal name = name := by
  have hkept : name.toList.map (fun c => if c == '.' then '/' else c) = name.toList.map id := by
    apply List.map_congr_left
    intro c hc
    have hne : c ≠ '.' := ne_of_mem_of_not_mem hc h
    simp [hne]
  rw [toInternal, replaceChar, hkept, List.map_id, String.ofList_toList]

namespace MethodRef

theorem splitLast?_append {c : Char} {behind : List Char} (h : c ∉ behind) (before : List Char) :
    splitLast? c (before ++ c :: behind) = some (before, behind) := by
  have hreverse : (before ++ c :: behind).reverse = behind.reverse ++ c :: before.reverse := by simp
  have hbehind : c ∉ behind.reverse := by simpa using h
  rw [splitLast?, hreverse, List.span_eq_takeWhile_dropWhile, takeWhile_until hbehind,
    dropWhile_until hbehind]
  simp

theorem splitLast?_eq_none {c : Char} {cs : List Char} (h : c ∉ cs) : splitLast? c cs = none := by
  have hnothing : cs.reverse.dropWhile (· != c) = [] := by
    apply List.dropWhile_eq_nil_iff.mpr
    exact ne_of_notMem (by simpa using h)
  rw [splitLast?, List.span_eq_takeWhile_dropWhile, hnothing]

theorem exists_last {c : Char} {cs : List Char} (h : c ∈ cs) :
    ∃ before behind, c ∉ behind ∧ cs = before ++ c :: behind := by
  obtain ⟨front, back, hcs, hfront⟩ := List.eq_append_cons_of_mem (List.mem_reverse.mpr h)
  refine ⟨back.reverse, front.reverse, by simpa using hfront, ?_⟩
  simpa using congrArg List.reverse hcs

theorem toList_toText (m : MethodRef) :
    m.toText.toList = m.owner.toList ++ '.' :: (m.name.toList ++ m.descriptor.toList) := by
  simp [toText, toString]

/-- The last dot in front of the first parenthesis tells the owner from the name. -/
theorem ofText_parts {text : String} {owner name rest : List Char} (howner : '(' ∉ owner)
    (hname : '(' ∉ name) (hdot : '.' ∉ name)
    (htext : text.toList = owner ++ '.' :: (name ++ '(' :: rest)) :
    ofText text = if owner = [] ∨ name = [] then .error (.notMethod text) else
      .ok ⟨Name.toInternal (String.ofList owner), String.ofList name,
        String.ofList ('(' :: rest)⟩ := by
  have hhead : '(' ∉ owner ++ '.' :: name := by simp [howner, hname]
  have hsplit : text.toList = (owner ++ '.' :: name) ++ '(' :: rest := by
    rw [htext]
    simp
  rw [ofText, hsplit, List.span_eq_takeWhile_dropWhile, takeWhile_until hhead,
    dropWhile_until hhead]
  simp only [splitLast?_append hdot]
  cases owner with
  | nil => simp
  | cons o owner =>
    cases name with
    | nil => simp
    | cons n name => simp

/-- What has no parenthesis, or no dot in front of the first one, is refused. -/
theorem parts_or_refused (text : String) :
    (∃ owner name rest, '(' ∉ owner ∧ '(' ∉ name ∧ '.' ∉ name ∧
      text.toList = owner ++ '.' :: (name ++ '(' :: rest)) ∨
    ofText text = .error (.notMethod text) := by
  cases hdrop : text.toList.dropWhile (· != '(') with
  | nil =>
    right
    rw [ofText, List.span_eq_takeWhile_dropWhile, hdrop]
  | cons x rest =>
    obtain ⟨head, hhead, htext⟩ := exists_until hdrop
    -- only a dot in front of the parenthesis parts an owner from a name
    by_cases hdot : '.' ∈ head
    · left
      obtain ⟨owner, name, hname, hparts⟩ := exists_last hdot
      rw [hparts, List.mem_append, List.mem_cons, not_or, not_or] at hhead
      obtain ⟨howner, _, hclosed⟩ := hhead
      refine ⟨owner, name, rest, howner, hclosed, hname, ?_⟩
      rw [htext, hparts, List.append_assoc, List.cons_append]
    · right
      rw [ofText, htext, List.span_eq_takeWhile_dropWhile, takeWhile_until hhead,
        dropWhile_until hhead]
      simp only [splitLast?_eq_none hdot]

/-- The descriptor starts at the first parenthesis, and the last dot in front of it ends the owner. -/
structure Readable (m : MethodRef) : Prop where
  owner_ne : m.owner ≠ ""
  name_ne : m.name ≠ ""
  owner : '(' ∉ m.owner.toList
  name : '(' ∉ m.name.toList
  undotted : '.' ∉ m.name.toList
  descriptor : ∃ rest, m.descriptor.toList = '(' :: rest

theorem Readable.ofText_toText {m : MethodRef} (h : m.Readable) :
    ofText m.toText = .ok ⟨Name.toInternal m.owner, m.name, m.descriptor⟩ := by
  obtain ⟨rest, hrest⟩ := h.descriptor
  have htext := m.toList_toText
  rw [hrest] at htext
  have hparts : ¬ (m.owner.toList = [] ∨ m.name.toList = []) := by
    simp [h.owner_ne, h.name_ne]
  rw [ofText_parts h.owner h.name h.undotted htext, if_neg hparts, ← hrest]
  simp only [String.ofList_toList]

/-- A text that is read as a reference is the written form of one that can be read, whose owner may
have dots for slashes. -/
theorem Readable.of_ofText {text : String} {m : MethodRef} (h : ofText text = .ok m) :
    ∃ owner, Readable ⟨owner, m.name, m.descriptor⟩ ∧ m.owner = Name.toInternal owner ∧
      text = toText ⟨owner, m.name, m.descriptor⟩ := by
  rcases parts_or_refused text with ⟨owner, name, rest, howner, hname, hdot, htext⟩ | hrefused
  · rw [ofText_parts howner hname hdot htext] at h
    split_ifs at h with hempty
    rw [not_or] at hempty
    cases h
    refine ⟨String.ofList owner, ?_, rfl, ?_⟩
    · constructor
      · simpa using hempty.1
      · simpa using hempty.2
      · simpa using howner
      · simpa using hname
      · simpa using hdot
      · exact ⟨rest, by simp⟩
    · rw [← String.toList_inj, htext, toList_toText]
      simp
  · rw [hrefused] at h
    cases h

/-- The references that class files may hold: a class, a name of its own kind, and something that
starts as descriptors do. -/
structure IsLegal (m : MethodRef) : Prop where
  owner : FieldType.IsClassName m.owner.toList
  name : FieldType.IsUnqualified m.name.toList
  descriptor : ∃ rest, m.descriptor.toList = '(' :: rest

theorem IsLegal.owner_undotted {m : MethodRef} (h : m.IsLegal) : '.' ∉ m.owner.toList := by
  obtain ⟨segments, _, hsegments, howner⟩ := h.owner
  rw [howner]
  exact FieldType.not_mem_intercalate (by decide) hsegments

theorem IsLegal.readable {m : MethodRef} (h : m.IsLegal) (howner : '(' ∉ m.owner.toList)
    (hname : '(' ∉ m.name.toList) : m.Readable where
  owner_ne := by
    obtain ⟨segments, hne, hsegments, hname⟩ := h.owner
    have hnonempty := FieldType.intercalate_ne_nil hne hsegments
    rw [← hname] at hnonempty
    simpa using hnonempty
  name_ne := by simpa using h.name.1
  owner := howner
  name := hname
  undotted := by
    intro hdot
    exact h.name.2 '.' hdot (by decide)
  descriptor := h.descriptor

/-- The dot behind the owner is the first one, and in front of the descriptor there is no other
parenthesis. -/
theorem IsLegal.toText_inj {m m' : MethodRef} (h : m.IsLegal) (h' : m'.IsLegal)
    (hname : '(' ∉ m.name.toList) (hname' : '(' ∉ m'.name.toList) (htext : m.toText = m'.toText) :
    m = m' := by
  obtain ⟨rest, hrest⟩ := h.descriptor
  obtain ⟨rest', hrest'⟩ := h'.descriptor
  have hchars := congrArg String.toList htext
  rw [toList_toText, toList_toText, hrest, hrest'] at hchars
  obtain ⟨howner, hbehind⟩ := eq_of_first h.owner_undotted h'.owner_undotted hchars
  obtain ⟨hnames, hrests⟩ := eq_of_first hname hname' hbehind
  have hdescriptor : m.descriptor.toList = m'.descriptor.toList := by rw [hrest, hrest', hrests]
  cases m
  cases m'
  rw [mk.injEq]
  exact ⟨String.toList_inj.mp howner, String.toList_inj.mp hnames,
    String.toList_inj.mp hdescriptor⟩

/-- A reference without a parenthesis in its owner is read back as it was written if its name has
none either, and otherwise as another one. No two references with such names are written alike. -/
theorem toText_restored {m : MethodRef} (h : m.IsLegal) :
    ('(' ∉ m.owner.toList → (ofText m.toText = .ok m ↔ '(' ∉ m.name.toList)) ∧
    ∀ m' : MethodRef, m'.IsLegal → '(' ∉ m.name.toList → '(' ∉ m'.name.toList →
      m.toText = m'.toText → m = m' := by
  refine ⟨?_, fun m' h' hname hname' htext => h.toText_inj h' hname hname' htext⟩
  intro howner
  constructor
  · intro hread
    obtain ⟨owner, hreadable, _, _⟩ := Readable.of_ofText hread
    exact hreadable.name
  · intro hname
    rw [(h.readable howner hname).ofText_toText, Name.toInternal_of_noDot h.owner_undotted]

theorem constructor_restored :
    IsLegal ⟨"app/Shape", "<init>", "(I)V"⟩ ∧
    ofText "app/Shape.<init>(I)V" = .ok ⟨"app/Shape", "<init>", "(I)V"⟩ ∧
    ∀ m : MethodRef, m.IsLegal → '(' ∉ m.name.toList → m.toText = "app/Shape.<init>(I)V" →
      m = ⟨"app/Shape", "<init>", "(I)V"⟩ := by
  have hlegal : IsLegal ⟨"app/Shape", "<init>", "(I)V"⟩ := by
    refine ⟨⟨["app".toList, "Shape".toList], by simp, ?_, rfl⟩, ?_, ⟨_, rfl⟩⟩
    · simp [FieldType.IsUnqualified]
    · simp [FieldType.IsUnqualified]
  obtain ⟨hread, hunique⟩ := toText_restored hlegal
  refine ⟨hlegal, (hread (by decide)).mpr (by decide), ?_⟩
  intro m hm hname htext
  exact (hunique m hm (by decide) hname htext.symm).symm

/-- Two methods of one class, both with well-formed descriptors, that are written alike, and one of a
class with a parenthesis in its name, whose written form is refused. -/
theorem parenthesized_lost :
    (IsLegal ⟨"A", "m", "()La(I)Lb;"⟩ ∧ IsLegal ⟨"A", "m()La", "(I)Lb;"⟩ ∧
      (∃ t, MethodType.parse "()La(I)Lb;" = .ok t) ∧ (∃ t, MethodType.parse "(I)Lb;" = .ok t) ∧
      toText ⟨"A", "m", "()La(I)Lb;"⟩ = toText ⟨"A", "m()La", "(I)Lb;"⟩ ∧
      ofText (toText ⟨"A", "m()La", "(I)Lb;"⟩) = .ok ⟨"A", "m", "()La(I)Lb;"⟩) ∧
    IsLegal ⟨"a(b", "m", "()V"⟩ ∧
      ofText (toText ⟨"a(b", "m", "()V"⟩) = .error (.notMethod "a(b.m()V") := by
  have hclass {name : String} (h : FieldType.IsUnqualified name.toList) :
      FieldType.IsClassName name.toList :=
    ⟨[name.toList], by simp, by simpa using h, by simp⟩
  have howner : FieldType.IsClassName "A".toList := hclass (by simp [FieldType.IsUnqualified])
  have hopened : FieldType.IsClassName "a(b".toList := hclass (by simp [FieldType.IsUnqualified])
  refine ⟨⟨⟨howner, ?_, _, rfl⟩, ⟨howner, ?_, _, rfl⟩, ⟨⟨[], "La(I)Lb;"⟩, by decide⟩,
    ⟨⟨["I"], "Lb;"⟩, by decide⟩, by decide, by decide⟩, ⟨hopened, ?_, _, rfl⟩, by decide⟩
  · simp [FieldType.IsUnqualified]
  · simp [FieldType.IsUnqualified]
  · simp [FieldType.IsUnqualified]

end MethodRef

end ClassAtlas
