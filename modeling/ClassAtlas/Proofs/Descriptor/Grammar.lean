import ClassAtlas.Descriptor
import ClassAtlas.Proofs.Steps
import Mathlib.Data.List.TakeWhile

/-!
The grammar of descriptors. A method descriptor is taken apart exactly as it was put together, where
the parameters end at the first closing parenthesis, and there is only one way to put it together.
-/

namespace ClassAtlas

theorem ne_of_notMem {c : Char} {front : List Char} (h : c ∉ front) :
    ∀ x ∈ front, (x != c) = true := by
  intro x hx
  simpa using ne_of_mem_of_not_mem hx h

theorem takeWhile_until {c : Char} {front : List Char} (h : c ∉ front) (back : List Char) :
    (front ++ c :: back).takeWhile (· != c) = front := by
  rw [List.takeWhile_append_of_pos (ne_of_notMem h)]
  simp

theorem dropWhile_until {c : Char} {front : List Char} (h : c ∉ front) (back : List Char) :
    (front ++ c :: back).dropWhile (· != c) = c :: back := by
  rw [List.dropWhile_append_of_pos (ne_of_notMem h)]
  simp

/-- A text that is cut at a character has it there for the first time. -/
theorem exists_until {c x : Char} {cs back : List Char}
    (h : cs.dropWhile (· != c) = x :: back) :
    ∃ front, c ∉ front ∧ cs = front ++ c :: back := by
  obtain ⟨hx, hcs⟩ := eq_of_dropWhile h
  have hxc : x = c := by simpa using hx
  refine ⟨cs.takeWhile (· != c), ?_, ?_⟩
  · intro hc
    have := List.mem_takeWhile_imp hc
    simp at this
  · rwa [hxc] at hcs

namespace FieldType

/-- The written forms of types: the letter of a primitive type, the name of a class between its
letter and a semicolon, and any of these behind brackets. -/
inductive IsType : List Char → Prop
  | primitive {c : Char} (h : c ∈ ['B', 'C', 'D', 'F', 'I', 'J', 'S', 'Z']) : IsType [c]
  | object {name : List Char} (hname : name ≠ []) (hend : ';' ∉ name) :
    IsType ('L' :: (name ++ [';']))
  | array {type : List Char} (h : IsType type) : IsType ('[' :: type)

theorem isPrimitive_iff {c : Char} :
    isPrimitive c = true ↔ c ∈ ['B', 'C', 'D', 'F', 'I', 'J', 'S', 'Z'] := by
  simp [isPrimitive, or_assoc]

/-- A bracket belongs to the type behind it. -/
theorem split?_bracket (cs : List Char) :
    split? ('[' :: cs) = (split? cs).map fun found => ('[' :: found.1, found.2) := by
  simp only [split?, List.takeWhile_cons, List.dropWhile_cons, beq_self_eq_true, if_true,
    List.cons_append]
  cases cs.dropWhile (· == '[') with
  | nil => rfl
  | cons c rest =>
    by_cases hprimitive : isPrimitive c = true
    · simp [hprimitive]
    · by_cases hobject : (c == 'L') = true
      · cases hdrop : rest.dropWhile (· != ';') with
        | nil => simp [hprimitive, hobject, hdrop]
        | cons x after =>
          by_cases hname : (rest.takeWhile (· != ';')).isEmpty = true
          · simp [hprimitive, hobject, hdrop, hname]
          · simp [hprimitive, hobject, hdrop, hname]
      · simp [hprimitive, hobject]

/-- Behind the brackets stands the letter of a primitive type or a class. -/
theorem split?_cons {c : Char} (hc : c ≠ '[') (rest : List Char) :
    split? (c :: rest) =
      if isPrimitive c then some ([c], rest)
      else if c = 'L' then
        match rest.dropWhile (· != ';') with
        | _ :: after =>
          if rest.takeWhile (· != ';') = [] then none
          else some ('L' :: (rest.takeWhile (· != ';') ++ [';']), after)
        | [] => none
      else none := by
  have hbracket : (c == '[') = false := by simpa using hc
  cases hdrop : rest.dropWhile (· != ';') with
  | nil => simp [split?, hbracket, hdrop]
  | cons x after => simp [split?, hbracket, hdrop]

theorem split?_append {type : List Char} (h : IsType type) (rest : List Char) :
    split? (type ++ rest) = some (type, rest) := by
  induction h with
  | @primitive c h =>
    have hc : c ≠ '[' := by
      rintro rfl
      simp at h
    rw [List.singleton_append, split?_cons hc, if_pos (isPrimitive_iff.mpr h)]
  | @object name hname hend =>
    have hrest : name ++ [';'] ++ rest = name ++ ';' :: rest := by simp
    have hletter : ¬ isPrimitive 'L' = true := by decide
    rw [List.cons_append, hrest, split?_cons (by decide), if_neg hletter, if_pos rfl,
      dropWhile_until hend, takeWhile_until hend]
    dsimp only
    rw [if_neg hname]
  | array h ih => rw [List.cons_append, split?_bracket, ih, Option.map_some]

theorem of_split? {cs type rest : List Char} (h : split? cs = some (type, rest)) :
    IsType type ∧ cs = type ++ rest := by
  induction cs generalizing type with
  | nil => cases h
  | cons c cs ih =>
    by_cases hc : c = '['
    · subst hc
      rw [split?_bracket] at h
      obtain ⟨⟨inner, rest'⟩, hinner, hfound⟩ := Option.map_eq_some_iff.mp h
      cases hfound
      obtain ⟨htype, hcs⟩ := ih hinner
      exact ⟨.array htype, by rw [hcs, List.cons_append]⟩
    · rw [split?_cons hc] at h
      by_cases hprimitive : isPrimitive c = true
      · rw [if_pos hprimitive] at h
        cases h
        exact ⟨.primitive (isPrimitive_iff.mp hprimitive), rfl⟩
      · by_cases hobject : c = 'L'
        · rw [if_neg hprimitive, if_pos hobject] at h
          cases hdrop : cs.dropWhile (· != ';') with
          | nil =>
            rw [hdrop] at h
            cases h
          | cons x after =>
            obtain ⟨name, hend, rfl⟩ := exists_until hdrop
            rw [dropWhile_until hend, takeWhile_until hend] at h
            by_cases hname : name = []
            · simp [hname] at h
            · simp only [if_neg hname, Option.some.injEq, Prod.mk.injEq] at h
              obtain ⟨rfl, rfl⟩ := h
              exact ⟨.object hname hend, by simp [hobject]⟩
        · rw [if_neg hprimitive, if_neg hobject] at h
          cases h

theorem IsType.ne_nil {type : List Char} (h : IsType type) : type ≠ [] := by
  cases h <;> simp

/-- No type begins with a closing parenthesis. -/
theorem split?_closed (rest : List Char) : split? (')' :: rest) = none := by
  rw [split?_cons (by decide), if_neg (by decide), if_neg (by decide)]

end FieldType

namespace MethodType

open FieldType

/-- The descriptor that is put together from parameters and a return type. -/
def assemble (params : List String) (ret : String) : String :=
  "(" ++ String.join params ++ ")" ++ ret

theorem toList_assemble (params : List String) (ret : String) :
    (assemble params ret).toList = '(' :: (params.flatMap String.toList ++ ')' :: ret.toList) := by
  simp [assemble, String.toList_join]

/-- The descriptor is put together from these parts: parameters that are types without a closing
parenthesis, and a type or nothing to return. -/
structure Assembled (descriptor : String) (m : MethodType) : Prop where
  text : descriptor = assemble m.params m.ret
  closed : ∀ p ∈ m.params, ')' ∉ p.toList
  params : ∀ p ∈ m.params, IsType p.toList
  ret : m.ret = "V" ∨ IsType m.ret.toList

theorem params?_flatMap {params : List String} (h : ∀ p ∈ params, IsType p.toList) {steps : Nat}
    (hsteps : (params.flatMap String.toList).length ≤ steps) :
    params? steps (params.flatMap String.toList) = some params := by
  induction params generalizing steps with
  | nil => cases steps <;> rfl
  | cons p params ih =>
    obtain ⟨htype, htypes⟩ := List.forall_mem_cons.mp h
    have hne := htype.ne_nil
    obtain ⟨c, cs, hp⟩ := List.exists_cons_of_ne_nil hne
    have hsplit := split?_append htype (params.flatMap String.toList)
    rw [List.flatMap_cons] at hsteps ⊢
    rw [List.length_append, hp, List.length_cons] at hsteps
    cases steps with
    | zero => omega
    | succ steps =>
      have hrest := ih htypes (show _ ≤ steps by omega)
      rw [hp, List.cons_append] at hsplit ⊢
      simp only [params?, hsplit, hrest, Option.map_some]
      rw [← hp, String.ofList_toList]

theorem of_params? {steps : Nat} {cs : List Char} {params : List String}
    (h : params? steps cs = some params) :
    (∀ p ∈ params, IsType p.toList) ∧ cs = params.flatMap String.toList := by
  induction steps generalizing cs params with
  | zero =>
    cases cs with
    | nil =>
      cases h
      simp
    | cons c cs => cases h
  | succ steps ih =>
    cases cs with
    | nil =>
      cases h
      simp
    | cons c cs =>
      simp only [params?] at h
      split at h
      · cases h
      · rename_i type rest hsplit
        obtain ⟨more, hmore, hparams⟩ := Option.map_eq_some_iff.mp h
        subst hparams
        obtain ⟨htype, hcs⟩ := of_split? hsplit
        obtain ⟨htypes, hrest⟩ := ih hmore
        refine ⟨?_, ?_⟩
        · intro p hp
          rcases List.mem_cons.mp hp with rfl | hp
          · rwa [String.toList_ofList]
          · exact htypes p hp
        · rw [hcs, hrest, List.flatMap_cons, String.toList_ofList]

/-- A text is taken for parameters exactly if it is made of types, which are the parameters. -/
theorem params?_eq_some_iff {cs : List Char} {params : List String} :
    params? cs.length cs = some params ↔
      (∀ p ∈ params, IsType p.toList) ∧ cs = params.flatMap String.toList := by
  constructor
  · exact of_params?
  · rintro ⟨htypes, rfl⟩
    exact params?_flatMap htypes le_rfl

theorem isFieldType_iff {cs : List Char} : isFieldType cs = true ↔ IsType cs := by
  rw [isFieldType]
  constructor
  · intro h
    split at h
    · rename_i type hsplit
      obtain ⟨htype, hcs⟩ := of_split? hsplit
      rw [List.append_nil] at hcs
      rwa [hcs]
    · cases h
  · intro h
    have hsplit := split?_append h []
    rw [List.append_nil] at hsplit
    rw [hsplit]

theorem returns_iff {ret : List Char} :
    (ret = ['V'] ∨ isFieldType ret = true) ↔ (String.ofList ret = "V" ∨ IsType ret) := by
  rw [isFieldType_iff, ← String.toList_inj, String.toList_ofList]
  rfl

/-- Between the parentheses stand the parameters, and behind them what is returned. -/
theorem parse_closed {descriptor : String} {args ret : List Char} (hclosed : ')' ∉ args)
    (h : descriptor.toList = '(' :: (args ++ ')' :: ret)) :
    parse descriptor =
      match params? args.length args with
      | some params =>
        if ret = ['V'] || isFieldType ret then .ok ⟨params, String.ofList ret⟩
        else .error ⟨descriptor, .malformedDescriptor⟩
      | none => .error ⟨descriptor, .malformedDescriptor⟩ := by
  rw [parse]
  split
  · rename_i rest hopen
    rw [h] at hopen
    cases hopen
    cases hparams : params? args.length args with
    | none => simp [dropWhile_until hclosed, takeWhile_until hclosed, hparams]
    | some params => simp [dropWhile_until hclosed, takeWhile_until hclosed, hparams]
  · rename_i hopen
    exact absurd h (hopen _)

/-- Either the text of a descriptor has both parentheses, or it is refused at once. -/
theorem closed_or_refused (descriptor : String) :
    (∃ args ret, ')' ∉ args ∧ descriptor.toList = '(' :: (args ++ ')' :: ret)) ∨
      parse descriptor = .error ⟨descriptor, .malformedDescriptor⟩ := by
  rw [parse]
  split
  · rename_i rest hopen
    cases hdrop : rest.dropWhile (· != ')') with
    | nil => exact .inr rfl
    | cons x ret =>
      obtain ⟨args, hclosed, rfl⟩ := exists_until hdrop
      exact .inl ⟨args, ret, hclosed, hopen⟩
  · exact .inr rfl

theorem Assembled.of_parse {descriptor : String} {m : MethodType}
    (h : parse descriptor = .ok m) : Assembled descriptor m := by
  rcases closed_or_refused descriptor with ⟨args, ret, hclosed, htext⟩ | hrefused
  · rw [parse_closed hclosed htext] at h
    cases hparams : params? args.length args with
    | none =>
      rw [hparams] at h
      cases h
    | some params =>
      rw [hparams] at h
      by_cases hret : (ret = ['V'] || isFieldType ret) = true
      · simp only [if_pos hret, Except.ok.injEq] at h
        subst h
        obtain ⟨htypes, hargs⟩ := params?_eq_some_iff.mp hparams
        refine ⟨?_, ?_, htypes, ?_⟩
        · rw [← String.toList_inj, htext, toList_assemble, hargs, String.toList_ofList]
        · intro p hp hin
          apply hclosed
          rw [hargs]
          exact List.mem_flatMap.mpr ⟨p, hp, hin⟩
        · rw [String.toList_ofList]
          exact returns_iff.mp (by simpa using hret)
      · simp [hret] at h
  · rw [hrefused] at h
    cases h

theorem Assembled.parse_eq {descriptor : String} {m : MethodType}
    (h : Assembled descriptor m) : parse descriptor = .ok m := by
  have hclosed : ')' ∉ m.params.flatMap String.toList := by
    intro hin
    obtain ⟨p, hp, hpin⟩ := List.mem_flatMap.mp hin
    exact h.closed p hp hpin
  have htext : descriptor.toList =
      '(' :: (m.params.flatMap String.toList ++ ')' :: m.ret.toList) := by
    rw [h.text, toList_assemble]
  have hparams := params?_eq_some_iff.mpr ⟨h.params, rfl⟩
  have hret : m.ret.toList = ['V'] ∨ isFieldType m.ret.toList = true := by
    rw [returns_iff, String.ofList_toList]
    exact h.ret
  have hreturns : (m.ret.toList = ['V'] || isFieldType m.ret.toList) = true := by simpa using hret
  rw [parse_closed hclosed htext, hparams]
  simp only [if_pos hreturns, String.ofList_toList]

/-- Whatever is wrong with a descriptor, it is reported as malformed. -/
theorem parse_eq_error {descriptor : String} {e : DecodeError}
    (h : parse descriptor = .error e) : e = ⟨descriptor, .malformedDescriptor⟩ := by
  rcases closed_or_refused descriptor with ⟨args, ret, hclosed, htext⟩ | hrefused
  · rw [parse_closed hclosed htext] at h
    split at h
    · split at h
      · cases h
      · cases h
        rfl
    · cases h
      rfl
  · rw [hrefused] at h
    cases h
    rfl

/-- Types up to a closing parenthesis are told apart in one way only. -/
theorem flatMap_types_inj {params params' : List String} {ret ret' : List Char}
    (hparams : ∀ p ∈ params, IsType p.toList) (hparams' : ∀ p ∈ params', IsType p.toList)
    (h : params.flatMap String.toList ++ ')' :: ret =
      params'.flatMap String.toList ++ ')' :: ret') : params = params' ∧ ret = ret' := by
  induction params generalizing params' with
  | nil =>
    cases params' with
    | nil =>
      cases h
      exact ⟨rfl, rfl⟩
    | cons p' params' =>
      obtain ⟨htype, _⟩ := List.forall_mem_cons.mp hparams'
      have hsplit := congrArg split? h
      rw [List.flatMap_cons, List.append_assoc, split?_append htype, List.flatMap_nil,
        List.nil_append, split?_closed] at hsplit
      cases hsplit
  | cons p params ih =>
    obtain ⟨htype, htypes⟩ := List.forall_mem_cons.mp hparams
    have hsplit := congrArg split? h
    rw [List.flatMap_cons, List.append_assoc, split?_append htype] at hsplit
    cases params' with
    | nil =>
      rw [List.flatMap_nil, List.nil_append, split?_closed] at hsplit
      cases hsplit
    | cons p' params' =>
      obtain ⟨htype', htypes'⟩ := List.forall_mem_cons.mp hparams'
      rw [List.flatMap_cons, List.append_assoc, split?_append htype'] at hsplit
      obtain ⟨hfirst, hrest⟩ := Prod.mk.inj (Option.some.inj hsplit)
      obtain ⟨hmore, hret⟩ := ih htypes htypes' hrest
      exact ⟨by rw [String.toList_inj.mp hfirst, hmore], hret⟩

theorem assemble_inj {params params' : List String} {ret ret' : String}
    (hparams : ∀ p ∈ params, IsType p.toList) (hparams' : ∀ p ∈ params', IsType p.toList)
    (h : assemble params ret = assemble params' ret') : params = params' ∧ ret = ret' := by
  have htext := congrArg String.toList h
  rw [toList_assemble, toList_assemble] at htext
  obtain ⟨hsame, hret⟩ := flatMap_types_inj hparams hparams' (List.tail_eq_of_cons_eq htext)
  exact ⟨hsame, String.toList_inj.mp hret⟩

/-- A descriptor is taken apart into exactly the parts that it is put together from, and these are
the only ones. -/
theorem parse_exact (descriptor : String) :
    (∀ m, parse descriptor = .ok m ↔ Assembled descriptor m) ∧
      ∀ m m', Assembled descriptor m → Assembled descriptor m' → m = m' := by
  refine ⟨fun m => ⟨Assembled.of_parse, Assembled.parse_eq⟩, ?_⟩
  intro m m' h h'
  have htext : assemble m.params m.ret = assemble m'.params m'.ret := by
    rw [← h.text, ← h'.text]
  obtain ⟨hparams, hret⟩ := assemble_inj h.params h'.params htext
  cases m
  cases m'
  cases hparams
  cases hret
  rfl

theorem parts_of_mixed :
    Assembled "(I[Ljava/lang/String;)V" ⟨["I", "[Ljava/lang/String;"], "V"⟩ ∧
    parse "(I[Ljava/lang/String;)V" = .ok ⟨["I", "[Ljava/lang/String;"], "V"⟩ ∧
    ∀ m, Assembled "(I[Ljava/lang/String;)V" m → m = ⟨["I", "[Ljava/lang/String;"], "V"⟩ := by
  obtain ⟨hparse, hunique⟩ := parse_exact "(I[Ljava/lang/String;)V"
  have hstring : IsType "[Ljava/lang/String;".toList :=
    .array (.object (show "java/lang/String".toList ≠ [] by decide) (by decide))
  have hparts : Assembled "(I[Ljava/lang/String;)V" ⟨["I", "[Ljava/lang/String;"], "V"⟩ := by
    refine ⟨by decide, by decide, ?_, .inl rfl⟩
    intro p hp
    simp only [List.mem_cons, List.not_mem_nil, or_false] at hp
    rcases hp with rfl | rfl
    · exact .primitive (by decide)
    · exact hstring
  exact ⟨hparts, (hparse _).mpr hparts, fun m hm => hunique m _ hm hparts⟩

end MethodType

end ClassAtlas
