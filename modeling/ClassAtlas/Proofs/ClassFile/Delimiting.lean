import ClassAtlas.Proofs.Bytes.Delimiting
import ClassAtlas.Proofs.ClassFile.Rewriting

/-!
Class files find their own end. All counts and lengths stand in front of what they govern, so no
class file is the beginning of another one: with bytes cut off or added it is refused.
-/

namespace ClassAtlas

open Reader

namespace Constant

theorem read_delimiting : SelfDelimiting read := by
  have hindex (f : UInt16 → Constant) : SelfDelimiting (do return f (← Reader.u16)) :=
    SelfDelimiting.u16.map f
  have hindices (f : UInt16 → UInt16 → Constant) :
      SelfDelimiting (do return f (← Reader.u16) (← Reader.u16)) :=
    SelfDelimiting.u16.bind fun a => SelfDelimiting.u16.map (f a)
  refine SelfDelimiting.u8.bind fun tag => ?_
  split
  · refine SelfDelimiting.u16.bind fun length => ?_
    exact (SelfDelimiting.take _).map fun bytes => utf8 (ModifiedUtf8.decode bytes)
  · exact SelfDelimiting.u32.map fun v => integer v.toInt32
  · exact SelfDelimiting.u32.map float
  · exact SelfDelimiting.u64.map fun v => long v.toInt64
  · exact SelfDelimiting.u64.map double
  · exact hindex .classRef
  · exact hindex .string
  · exact hindices .fieldRef
  · exact hindices .methodRef
  · exact hindices .interfaceMethodRef
  · exact hindices .nameAndType
  · exact SelfDelimiting.u8.bind fun kind => SelfDelimiting.u16.map (methodHandle kind)
  · exact hindex .methodType
  · exact hindices .dynamic
  · exact hindices .invokeDynamic
  · exact hindex .module
  · exact hindex .package
  · exact .fail _

end Constant

namespace Pool

theorem readEntries_succ (slots : Nat) (p : Pool) :
    readEntries (slots + 1) p = Constant.read >>= fun c =>
      if c.isWide then
        match slots with
        | 0 => Reader.fail .wideOverflow
        | slots + 1 => readEntries slots (p.push c)
      else readEntries slots (p.push c) := by
  funext cursor
  simp only [readEntries, bind, EStateM.bind]
  cases Constant.read cursor with
  | error e d => rfl
  | ok c d =>
    dsimp only
    split
    · cases slots <;> rfl
    · rfl

/-- The number of slots is known before the entries are read, and each fills one or two of them. -/
theorem readEntries_delimiting (slots : Nat) (p : Pool) : SelfDelimiting (readEntries slots p) := by
  induction slots using Nat.strongRecOn generalizing p with
  | ind slots ih =>
    cases slots with
    | zero => exact .pure p
    | succ slots =>
      rw [readEntries_succ]
      refine Constant.read_delimiting.bind fun c => ?_
      split
      · cases slots with
        | zero => exact .fail _
        | succ slots => exact ih slots (by omega) (p.push c)
      · exact ih slots (by omega) (p.push c)

theorem read_delimiting : SelfDelimiting read := by
  refine SelfDelimiting.u16.bind fun count => ?_
  split
  · exact .fail _
  · exact readEntries_delimiting _ _

end Pool

namespace ClassFile

theorem readHeader_delimiting : SelfDelimiting readHeader := by
  refine SelfDelimiting.u32.bind fun word => ?_
  split
  · exact SelfDelimiting.u16.bind fun minor => SelfDelimiting.u16.map fun major => (minor, major)
  · exact .fail _

theorem readList_delimiting {α : Type} {r : Reader α} (hr : SelfDelimiting r) :
    SelfDelimiting (readList r) :=
  SelfDelimiting.u16.bind fun count => hr.many count.toNat

section

variable (p : Pool)

theorem readText_delimiting : SelfDelimiting (readText p) :=
  SelfDelimiting.u16.bind fun _ => .lift _

theorem readClass_delimiting : SelfDelimiting (readClass p) :=
  SelfDelimiting.u16.bind fun _ => .lift _

theorem readOptionalClass_delimiting : SelfDelimiting (readOptionalClass p) :=
  SelfDelimiting.u16.bind fun _ => .lift _

theorem readAttribute_delimiting : SelfDelimiting (readAttribute p) := by
  refine (readText_delimiting p).bind fun name => SelfDelimiting.u32.bind fun length => ?_
  exact (SelfDelimiting.take _).map fun data => Attribute.mk name data

theorem readAttributes_delimiting : SelfDelimiting (readAttributes p) :=
  readList_delimiting (readAttribute_delimiting p)

theorem readField_delimiting : SelfDelimiting (readField p) := by
  refine SelfDelimiting.u16.bind fun access => (readText_delimiting p).bind fun name =>
    (readText_delimiting p).bind fun descriptor => ?_
  exact (readAttributes_delimiting p).map (FieldDecl.mk ⟨access⟩ name descriptor)

/-- The body of a method is read from attributes that are there already, so the end of its own data
is not the end of the file. -/
theorem readMethod_delimiting : SelfDelimiting (readMethod p) := by
  refine SelfDelimiting.u16.bind fun access => (readText_delimiting p).bind fun name =>
    (readText_delimiting p).bind fun descriptor => (readAttributes_delimiting p).bind
      fun attributes => ?_
  exact (SelfDelimiting.lift _).bind fun found => .pure _

theorem readMembers_delimiting (minor major : UInt16) :
    SelfDelimiting (readMembers minor major p) := by
  refine SelfDelimiting.u16.bind fun access => (readClass_delimiting p).bind fun name =>
    (readOptionalClass_delimiting p).bind fun superName => ?_
  refine (readList_delimiting (readClass_delimiting p)).bind fun interfaces => ?_
  refine (readList_delimiting (readField_delimiting p)).bind fun fields => ?_
  refine (readList_delimiting (readMethod_delimiting p)).bind fun methods => ?_
  exact (readAttributes_delimiting p).bind fun attributes => .pure _

end

/-- Reads a class file without looking for bytes behind it. -/
def readDeclaration : Reader ClassDecl := do
  let (minor, major) ← readHeader
  let pool ← Pool.read
  readMembers minor major pool

theorem readDeclaration_delimiting : SelfDelimiting readDeclaration :=
  readHeader_delimiting.bind fun version => Pool.read_delimiting.bind fun pool =>
    readMembers_delimiting pool version.1 version.2

/-- Refuses what is left behind a declaration. -/
def endingWith (d : ClassDecl) : Reader ClassDecl := do
  let left ← Reader.remaining
  if left = 0 then return d else Reader.fail (.trailing left)

theorem readFile_eq : readFile = readDeclaration >>= endingWith := by
  simp only [readFile, readDeclaration, bind_assoc]
  rfl

theorem parse_of_reads {bytes : Bytes} {d : ClassDecl} (h : Reads readDeclaration bytes d)
    (label : String) (extra : Bytes) :
    parse label (bytes ++ extra) =
      if extra = [] then .ok d
      else .error ⟨label, .located (.trailing extra.length) bytes.length⟩ := by
  have hrun : readFile (.start label (bytes ++ extra)) =
      endingWith d ⟨label, extra, bytes.length⟩ := by
    rw [readFile_eq, Cursor.start, h.bind_eq, Nat.zero_add]
  cases extra with
  | nil =>
    rw [if_pos rfl, parse, Reader.run, hrun]
    rfl
  | cons x extra =>
    have hleft : endingWith d ⟨label, x :: extra, bytes.length⟩ =
        Reader.fail (.trailing (x :: extra).length) ⟨label, x :: extra, bytes.length⟩ := rfl
    rw [if_neg (List.cons_ne_nil x extra), parse, Reader.run, hrun, hleft]
    simp [Reader.fail, DecodeError.relabel]

/-- A byte string is accepted if all of it is read, whatever the label. -/
theorem parse_eq_ok_iff_reads {label : String} {bytes : Bytes} {d : ClassDecl} :
    parse label bytes = .ok d ↔ Reads readDeclaration bytes d := by
  constructor
  · intro h
    obtain ⟨c, hfile⟩ := parse_ok h
    rw [readFile_eq] at hfile
    obtain ⟨found, c', hread, hend⟩ := bind_eq_ok.mp hfile
    obtain ⟨taken, ⟨_, hrest, _⟩, hreads⟩ := readDeclaration_delimiting.reads _ _ _ hread
    change bytes = _ at hrest
    have hparse := parse_of_reads hreads label c'.rest
    rw [← hrest, h] at hparse
    split at hparse
    · rename_i hnone
      cases hparse
      rwa [hrest, hnone, List.append_nil]
    · cases hparse
  · intro h
    have hparse := parse_of_reads h label []
    rwa [List.append_nil, if_pos rfl] at hparse

/-- With bytes cut off its end an accepted file is refused because data is missing, and with bytes
added to it because they are left over. -/
theorem parse_prefixFree {label : String} {bytes : Bytes} {d : ClassDecl}
    (h : parse label bytes = .ok d) (label' : String) :
    (∀ front, front <+: bytes → front ≠ bytes → ∃ wanted position,
      parse label' front = .error ⟨label', .located (.endOfData wanted) position⟩) ∧
    ∀ extra, extra ≠ [] → parse label' (bytes ++ extra) =
      .error ⟨label', .located (.trailing extra.length) bytes.length⟩ := by
  have hreads := parse_eq_ok_iff_reads.mp h
  constructor
  · intro front hfront hne
    obtain ⟨back, rfl⟩ := hfront
    have hback : back ≠ [] := by
      rintro rfl
      exact hne (List.append_nil front).symm
    obtain ⟨e, c, hrun, wanted, position, rfl⟩ :=
      readDeclaration_delimiting.meetsEnd hreads hback label' 0
    refine ⟨wanted, position, ?_⟩
    have hfile : readFile (.start label' front) =
        .error ⟨label', .located (.endOfData wanted) position⟩ c := by
      rw [readFile_eq]
      exact bind_error hrun
    rw [parse, Reader.run, hfile]
    simp [DecodeError.relabel]
  · intro extra hextra
    rw [parse_of_reads hreads label' extra, if_neg hextra]

/-- The file of the class with one method, without its last byte and with a byte more. -/
theorem guarded_cut : ∃ d,
    parse "A" (guardedHeader ++ guardedPool ++ guardedMembers) = .ok d ∧
    (∃ wanted position, parse "A" (guardedHeader ++ guardedPool ++ guardedMembers.dropLast) =
      .error ⟨"A", .located (.endOfData wanted) position⟩) ∧
    parse "A" (guardedHeader ++ guardedPool ++ guardedMembers ++ [0]) =
      .error ⟨"A", .located (.trailing 1) 83⟩ := by
  obtain ⟨d, hd⟩ := parse_guarded
  obtain ⟨hcut, hadded⟩ := parse_prefixFree hd "A"
  refine ⟨d, hd, hcut _ ⟨[0], rfl⟩ (by decide), hadded [0] (by decide)⟩

end ClassFile

end ClassAtlas
