import ClassAtlas.ClassFile.Codec
import ClassAtlas.Proofs.Bytes.Failing
import ClassAtlas.Proofs.ClassFile.Delimiting

/-!
What class files are refused for. The reading of a file can fail in its own bytes, at a slot of the
pool that a part of the file points to, or in the bytes of a method body, each under a label of its
own. The whole is then named in all of them, so a class file is only ever refused under the name that
it is read for.
-/

namespace ClassAtlas

open Reader

/-- A slot of the pool does not hold what is looked for. -/
def Pool.Misses (e : DecodeError) : Prop :=
  ∃ i expected found, e = lookupError i expected found

variable {label : String} {others : DecodeError → Prop}

/-! ### The pool -/

theorem Constant.read_reports : Reports label others Constant.read := by
  have hindex (f : UInt16 → Constant) : Reports label others (do return f (← Reader.u16)) :=
    Reports.u16.bind fun _ => .pure _
  have hindices (f : UInt16 → UInt16 → Constant) :
      Reports label others (do return f (← Reader.u16) (← Reader.u16)) :=
    Reports.u16.bind fun _ => Reports.u16.bind fun _ => .pure _
  refine Reports.u8.bind fun tag => ?_
  split
  · exact Reports.u16.bind fun length => (Reports.take _).bind fun _ => .pure _
  · exact Reports.u32.bind fun _ => .pure _
  · exact Reports.u32.bind fun _ => .pure _
  · exact Reports.u64.bind fun _ => .pure _
  · exact Reports.u64.bind fun _ => .pure _
  · exact hindex .classRef
  · exact hindex .string
  · exact hindices .fieldRef
  · exact hindices .methodRef
  · exact hindices .interfaceMethodRef
  · exact hindices .nameAndType
  · exact Reports.u8.bind fun _ => Reports.u16.bind fun _ => .pure _
  · exact hindex .methodType
  · exact hindices .dynamic
  · exact hindices .invokeDynamic
  · exact hindex .module
  · exact hindex .package
  · exact .fail _

namespace Pool

variable (p : Pool)

theorem readEntries_reports (slots : Nat) : Reports label others (readEntries slots p) := by
  induction slots using Nat.strongRecOn generalizing p with
  | ind slots ih =>
    cases slots with
    | zero => exact .pure p
    | succ slots =>
      rw [readEntries_succ]
      refine Constant.read_reports.bind fun c => ?_
      split
      · cases slots with
        | zero => exact .fail _
        | succ slots => exact ih slots (by omega) (p.push c)
      · exact ih slots (by omega) (p.push c)

theorem read_reports : Reports label others Pool.read := by
  refine Reports.u16.bind fun count => ?_
  split
  · exact .fail _
  · exact readEntries_reports _ _

theorem utf8At_misses {i : UInt16} {e : DecodeError} (h : p.utf8At i = .error e) : Misses e := by
  unfold utf8At at h
  split at h
  · cases h
  · cases h
    exact ⟨_, _, _, rfl⟩

theorem className_misses {i : UInt16} {e : DecodeError} (h : p.className i = .error e) :
    Misses e := by
  unfold className at h
  split at h
  · exact utf8At_misses p h
  · cases h
    exact ⟨_, _, _, rfl⟩

theorem optionalClassName_misses {i : UInt16} {e : DecodeError}
    (h : p.optionalClassName i = .error e) : Misses e := by
  unfold optionalClassName at h
  split at h
  · cases h
  · split at h
    · cases h
    · rename_i hclass
      cases h
      exact className_misses p hclass

end Pool

namespace ClassFile

/-! ### The parts of a file -/

section

variable (p : Pool)

theorem readHeader_reports : Reports label others readHeader := by
  refine Reports.u32.bind fun word => ?_
  split
  · exact Reports.u16.bind fun _ => Reports.u16.bind fun _ => .pure _
  · exact .fail _

theorem readList_reports {α : Type} {r : Reader α} (hr : Reports label others r) :
    Reports label others (readList r) :=
  Reports.u16.bind fun count => hr.many count.toNat

variable (hmisses : ∀ e, Pool.Misses e → others e)

include hmisses

theorem readText_reports : Reports label others (readText p) :=
  Reports.u16.bind fun _ => .lift fun e he => hmisses e (p.utf8At_misses he)

theorem readClass_reports : Reports label others (readClass p) :=
  Reports.u16.bind fun _ => .lift fun e he => hmisses e (p.className_misses he)

theorem readOptionalClass_reports : Reports label others (readOptionalClass p) :=
  Reports.u16.bind fun _ => .lift fun e he => hmisses e (p.optionalClassName_misses he)

theorem readAttributes_reports : Reports label others (readAttributes p) :=
  readList_reports <| (readText_reports p hmisses).bind fun _ => Reports.u32.bind fun _ =>
    (Reports.take _).bind fun _ => .pure _

theorem readHandler_reports (codeLength : Nat) :
    Reports label others (readHandler p codeLength) := by
  refine Reports.u16.bind fun start => Reports.u16.bind fun stop => Reports.u16.bind fun handler =>
    (readOptionalClass_reports p hmisses).bind fun catchType => ?_
  split
  · exact .fail _
  · exact .pure _

theorem readBody_reports : Reports label others (readBody p) :=
  Reports.u16.bind fun _ => Reports.u16.bind fun _ => Reports.u32.bind fun _ =>
    (Reports.take _).bind fun _ => (readList_reports (readHandler_reports p hmisses _)).bind
      fun _ => (readAttributes_reports p hmisses).bind fun _ => .pure _

theorem readField_reports : Reports label others (readField p) :=
  Reports.u16.bind fun _ => (readText_reports p hmisses).bind fun _ =>
    (readText_reports p hmisses).bind fun _ => (readAttributes_reports p hmisses).bind
      fun _ => .pure _

end

/-- A body is read under the label of its method. -/
theorem splitBody_error {p : Pool} {label : String} {attributes : List Attribute} {e : DecodeError}
    (h : splitBody p label attributes = .error e) : Located label e ∨ Pool.Misses e := by
  unfold splitBody at h
  dsimp only at h
  split at h
  · split at h
    · cases h
    · rename_i hbody
      cases h
      exact (readBody_reports p fun _ => id).run_error hbody
  · cases h

/-- What is met inside a file beside its own bytes: a slot of the pool, or the bytes of a body, which
are read under the name and descriptor of the method. -/
def Inside (e : DecodeError) : Prop :=
  Pool.Misses e ∨ ∃ name descriptor, Located (name ++ descriptor) e

theorem readMethod_reports (p : Pool) : Reports label Inside (readMethod p) := by
  have hmisses : ∀ e, Pool.Misses e → Inside e := fun e => .inl
  refine Reports.u16.bind fun access => (readText_reports p hmisses).bind fun name =>
    (readText_reports p hmisses).bind fun descriptor => (readAttributes_reports p hmisses).bind
      fun attributes => ?_
  have hbody : ∀ e, splitBody p (name ++ descriptor) attributes = .error e → Inside e := by
    intro e he
    rcases splitBody_error he with hlocated | hmiss
    · exact .inr ⟨name, descriptor, hlocated⟩
    · exact .inl hmiss
  exact (Reports.lift hbody).bind fun _ => .pure _

theorem readFile_reports : Reports label Inside readFile := by
  have hmisses : ∀ e, Pool.Misses e → Inside e := fun e => .inl
  refine readHeader_reports.bind fun version => Pool.read_reports.bind fun p => ?_
  have hmembers : Reports label Inside (readMembers version.1 version.2 p) :=
    Reports.u16.bind fun _ => (readClass_reports p hmisses).bind fun _ =>
      (readOptionalClass_reports p hmisses).bind fun _ =>
      (readList_reports (readClass_reports p hmisses)).bind fun _ =>
      (readList_reports (readField_reports p hmisses)).bind fun _ =>
      (readList_reports (readMethod_reports p)).bind fun _ =>
      (readAttributes_reports p hmisses).bind fun _ => .pure _
  refine hmembers.bind fun d => Reports.remaining.bind fun left => ?_
  split
  · exact .pure d
  · exact .fail _

/-! ### The whole -/

theorem relabel_subject (whole : String) (e : DecodeError) : (e.relabel whole).subject = whole := by
  unfold DecodeError.relabel
  split
  · assumption
  · rfl

/-- A file is refused at a position in its bytes or for what is inside it, under its own name. -/
theorem parse_error {name : String} {bytes : Bytes} {e : DecodeError}
    (h : parse name bytes = .error e) : e.subject = name ∧
      ∃ cause, e = cause.relabel name ∧ (Located name cause ∨ Inside cause) := by
  unfold parse at h
  split at h
  · cases h
  · rename_i cause hcause
    cases h
    exact ⟨relabel_subject name cause, cause, rfl, readFile_reports.run_error hcause⟩

/-- A unit is refused as its file is, or because it declares another class. -/
theorem decode_eq_error {name : String} {bytes : Bytes} {e : DecodeError} :
    decode name bytes = .error e ↔ parse name bytes = .error e ∨
      ∃ d, parse name bytes = .ok d ∧ d.name ≠ name ∧ e = ⟨name, .declares d.name⟩ := by
  unfold decode
  cases parse name bytes with
  | error x => simp
  | ok d =>
    by_cases hname : d.name = name
    · simp [hname]
    · have hrefused : Except.error (ε := DecodeError) (α := ClassDecl)
          ⟨name, .declares d.name⟩ = .error e ↔ e = ⟨name, .declares d.name⟩ := by
        rw [Except.error.injEq, eq_comm]
      simpa [hname] using hrefused

theorem decode_subject {name : String} {bytes : Bytes} {e : DecodeError}
    (h : decode name bytes = .error e) : e.subject = name := by
  rcases decode_eq_error.mp h with hparse | ⟨d, -, -, rfl⟩
  · exact (parse_error hparse).1
  · rfl

end ClassFile

end ClassAtlas
