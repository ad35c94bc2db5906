import ClassAtlas.Proofs.ClassFile.Delimiting
import ClassAtlas.Proofs.ClassFile.Reencoding

/-!
The class that a file declares, found without reading the whole file. What is found is the name that
reading all of it finds, so a file can be kept under that name before it is read, and only under
that name is it decoded later.
-/

namespace ClassAtlas.ClassFile

open Reader

def readName : Reader String := do
  let _ ← readHeader
  let pool ← Pool.read
  let _ ← Reader.u16
  readClass pool

theorem peekName_eq (bytes : Bytes) : peekName bytes = readName.run unnamed bytes := rfl

def readBehindName (minor major access : UInt16) (pool : Pool) (name : String) :
    Reader ClassDecl := do
  let superName ← readOptionalClass pool
  let interfaces ← readList (readClass pool)
  let fields ← readList (readField pool)
  let methods ← readList (readMethod pool)
  let attributes ← readAttributes pool
  return ⟨minor, major, ⟨access⟩, name, superName, interfaces, fields, methods, attributes, pool⟩

theorem readBehindName_yields (minor major access : UInt16) (pool : Pool) (name : String) :
    Yields (readBehindName minor major access pool name) fun d => d.name = name :=
  .bind fun _ => .bind fun _ => .bind fun _ => .bind fun _ => .bind fun _ => .pure rfl

/-- The bytes of a declaration begin with what tells its name. -/
theorem readName_of_readDeclaration {bytes : Bytes} {d : ClassDecl}
    (h : Reads readDeclaration bytes d) :
    ∃ front back, bytes = front ++ back ∧ Reads readName front d.name := by
  have hrun := h "" [] 0
  obtain ⟨version, c₁, hversion, hrun⟩ := bind_eq_ok.mp hrun
  obtain ⟨pool, c₂, hpool, hrun⟩ := bind_eq_ok.mp hrun
  obtain ⟨access, c₃, haccess, hrun⟩ := bind_eq_ok.mp hrun
  obtain ⟨name, c₄, hname, hbehind⟩ := bind_eq_ok.mp hrun
  -- each part is read alike wherever it stands, so it is read alike by the shorter reader
  obtain ⟨t₁, ⟨_, h₁, _⟩, hversion⟩ := readHeader_delimiting.reads _ _ _ hversion
  obtain ⟨t₂, ⟨_, h₂, _⟩, hpool⟩ := Pool.read_delimiting.reads _ _ _ hpool
  obtain ⟨t₃, ⟨_, h₃, _⟩, haccess⟩ := SelfDelimiting.u16.reads _ _ _ haccess
  obtain ⟨t₄, ⟨_, h₄, _⟩, hname⟩ := (readClass_delimiting pool).reads _ _ _ hname
  have hsame : d.name = name :=
    readBehindName_yields version.1 version.2 access pool name _ _ _ hbehind
  refine ⟨t₁ ++ (t₂ ++ (t₃ ++ t₄)), c₄.rest, ?_, ?_⟩
  · have hbytes : bytes ++ [] = t₁ ++ c₁.rest := h₁
    rw [List.append_nil] at hbytes
    rw [hbytes, h₂, h₃, h₄]
    simp only [List.append_assoc]
  · rw [hsame]
    exact hversion.bind (hpool.bind (haccess.bind hname))

theorem peekName_of_parse {label : String} {bytes : Bytes} {d : ClassDecl}
    (h : parse label bytes = .ok d) : peekName bytes = .ok d.name := by
  obtain ⟨front, back, rfl, hname⟩ := readName_of_readDeclaration (parse_eq_ok_iff_reads.mp h)
  rw [peekName_eq]
  exact hname.run_append unnamed back

/-- A file that is read under one name is read under every name. -/
theorem parse_relabeled {label : String} {bytes : Bytes} {d : ClassDecl}
    (h : parse label bytes = .ok d) (label' : String) : parse label' bytes = .ok d :=
  parse_eq_ok_iff_reads.mpr (parse_eq_ok_iff_reads.mp h)

theorem codec_decode_of_parse {label : String} {bytes : Bytes} {d : ClassDecl}
    (h : parse label bytes = .ok d) (name : String) : codec.decode name bytes =
      if d.name = name then .ok d else .error (.decode ⟨name, .declares d.name⟩) := by
  have hread := parse_relabeled h name
  unfold codec decode
  dsimp only
  rw [hread]
  by_cases hname : d.name = name
  · simp [hname]
  · simp [hname]

/-- The name that is found is the one that the whole file declares. The file is decoded under that
name and under no other one; and where no name is found, the file is not accepted. -/
theorem parse_agrees_peekName (bytes : Bytes) :
    (∀ label d, parse label bytes = .ok d → peekName bytes = .ok d.name ∧
      ∀ name, (peekName bytes = .ok name → codec.decode name bytes = .ok d) ∧
        (peekName bytes ≠ .ok name →
          codec.decode name bytes = .error (.decode ⟨name, .declares d.name⟩))) ∧
    ∀ e, peekName bytes = .error e → ∀ label, ∃ e', parse label bytes = .error e' := by
  constructor
  · intro label d hparse
    have hpeek := peekName_of_parse hparse
    refine ⟨hpeek, ?_⟩
    intro name
    rw [hpeek, codec_decode_of_parse hparse name]
    constructor
    · intro hname
      exact if_pos (Except.ok.inj hname)
    · intro hname
      exact if_neg fun hsame => hname (congrArg _ hsame)
  · intro e hpeek label
    cases hparse : parse label bytes with
    | error e' => exact ⟨e', rfl⟩
    | ok d =>
      rw [peekName_of_parse hparse] at hpeek
      cases hpeek

/-- A class `A`, decoded under its name and under another one, and bytes without a name. -/
theorem guarded_peeked : ∃ d,
    parse "A" (guardedHeader ++ guardedPool ++ guardedMembers) = .ok d ∧
    peekName (guardedHeader ++ guardedPool ++ guardedMembers) = .ok "A" ∧
    codec.decode "A" (guardedHeader ++ guardedPool ++ guardedMembers) = .ok d ∧
    codec.decode "B" (guardedHeader ++ guardedPool ++ guardedMembers) =
      .error (.decode ⟨"B", .declares "A"⟩) ∧
    (∃ e, peekName guardedHeader = .error e) ∧ ∃ e, parse "A" guardedHeader = .error e := by
  obtain ⟨pool, hparse⟩ := parse_guarded_eq
  obtain ⟨hagrees, _⟩ := parse_agrees_peekName (guardedHeader ++ guardedPool ++ guardedMembers)
  obtain ⟨hpeek, hdecode⟩ := hagrees "A" _ hparse
  have hcut : peekName guardedHeader = .error ⟨unnamed, .located (.endOfData 2) 8⟩ := by decide
  obtain ⟨_, hrefused⟩ := parse_agrees_peekName guardedHeader
  have hother : guarded.name ≠ "B" := by decide
  refine ⟨_, hparse, hpeek, (hdecode "A").1 hpeek, (hdecode "B").2 ?_, ⟨_, hcut⟩,
    hrefused _ hcut "A"⟩
  rw [hpeek]
  intro hname
  exact hother (Except.ok.inj hname)

end ClassAtlas.ClassFile
