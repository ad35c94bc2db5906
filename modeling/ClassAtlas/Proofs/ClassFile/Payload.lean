import ClassAtlas.Proofs.ClassFile.Delimiting

/-!
The payload of a code attribute. It begins with the file form of the body of its method, in which
every byte counts; what stands behind that is not looked at. Everything else in a class file has its
place in the declaration.
-/

namespace ClassAtlas

open Reader

namespace ClassFile

variable {α β : Type}

/-! ### The forms of bodies -/

/-- The index at which something is found. -/
def IndexForm (look : UInt16 → Except DecodeError α) (a : α) (bytes : Bytes) : Prop :=
  ∃ i, look i = .ok a ∧ bytes = Bytes.ofUInt16 i

/-- Items in their forms behind their number. -/
def ListForm (F : α → Bytes → Prop) (items : List α) (bytes : Bytes) : Prop :=
  ∃ pieces, items.length < 65536 ∧
    bytes = Bytes.ofUInt16 items.length.toUInt16 ++ pieces.flatten ∧ List.Forall₂ F items pieces

/-- Data behind its length. -/
def sized (data : Bytes) : Bytes :=
  Bytes.ofUInt32 data.length.toUInt32 ++ data

/-- The length of the data fits its field. -/
def Fits (data : Bytes) : Prop :=
  data.length < 4294967296

def AttributeForm (p : Pool) (a : Attribute) (bytes : Bytes) : Prop :=
  ∃ name, IndexForm p.utf8At a.name name ∧ Fits a.data ∧ bytes = name ++ sized a.data

/-- An entry of the exception table of code of the given length. -/
def HandlerForm (p : Pool) (codeLength : Nat) (h : Handler) (bytes : Bytes) : Prop :=
  ∃ catchType, IndexForm p.optionalClassName h.catchType catchType ∧ InRange codeLength h ∧
    h.stop < 65536 ∧ h.handler < 65536 ∧
    bytes = Bytes.ofUInt16 h.start.toUInt16 ++ (Bytes.ofUInt16 h.stop.toUInt16 ++
      (Bytes.ofUInt16 h.handler.toUInt16 ++ catchType))

/-- The limits of a body, its code, its exception table and its attributes. -/
def BodyForm (p : Pool) (b : MethodBody) (bytes : Bytes) : Prop :=
  ∃ handlers attributes, Fits b.code ∧ ListForm (HandlerForm p b.code.length) b.handlers handlers ∧
    ListForm (AttributeForm p) b.attributes attributes ∧
    bytes = Bytes.ofUInt16 b.maxStack ++ (Bytes.ofUInt16 b.maxLocals ++ (sized b.code ++
      (handlers ++ attributes)))

theorem index_parses (look : UInt16 → Except DecodeError α) :
    Parses (do Reader.lift (look (← Reader.u16))) (IndexForm look) where
  sound := by
    refine Consumes.u16.bind fun i front hfront => (Consumes.lift _).imp ?_
    rintro a _ ⟨rfl, ha⟩
    exact ⟨i, ha, by rw [List.append_nil, hfront]⟩
  complete := by
    rintro a _ ⟨i, ha, rfl⟩
    exact (Reads.u16 i).thenLift ha

theorem readList_parses {r : Reader α} {F : α → Bytes → Prop} (h : Parses r F) :
    Parses (readList r) (ListForm F) where
  sound := readList_consumes h.sound
  complete := by
    rintro items _ ⟨pieces, hcount, rfl, hpieces⟩
    have hreads : List.Forall₂ (Reads r) pieces items :=
      hpieces.flip.imp fun piece a hF => h.complete a piece hF
    refine (Reads.u16 _).bind ?_
    rw [Bytes.toUInt16_toNat hcount]
    exact .many hreads

theorem sized_eq {data : Bytes} {length : UInt32} (h : data.length = length.toNat) :
    Fits data ∧ sized data = Bytes.ofUInt32 length ++ data := by
  obtain ⟨hfits, hlength⟩ := length_toUInt32 h
  exact ⟨hfits, by rw [sized, hlength]⟩

theorem Fits.take {data : Bytes} (h : Fits data) :
    Reads (Reader.take data.length.toUInt32.toNat) data data := by
  rw [Bytes.toUInt32_toNat h]
  exact .take data

section Parsing

variable (p : Pool)

theorem readAttribute_parses : Parses (readAttribute p) (AttributeForm p) where
  sound := by
    refine (index_parses p.utf8At).sound.bind fun name front hname =>
      Consumes.u32.bind fun length middle hlength => (Consumes.take _).map ?_
    rintro data _ ⟨rfl, hdata⟩
    obtain ⟨hfits, hsized⟩ := sized_eq hdata
    exact ⟨front, hname, hfits, by rw [hsized, hlength]⟩
  complete := by
    rintro a _ ⟨name, hname, hfits, rfl⟩
    have hread := (index_parses p.utf8At).complete _ _ hname
    exact hread.bind ((Reads.u32 _).bind (hfits.take.map (Attribute.mk a.name)))

theorem readHandler_parses (codeLength : Nat) :
    Parses (readHandler p codeLength) (HandlerForm p codeLength) where
  sound := by
    refine Consumes.u16.bind fun start _ hstart => Consumes.u16.bind fun stop _ hstop =>
      Consumes.u16.bind fun handler _ hhandler =>
      (index_parses p.optionalClassName).sound.bind fun catchType last hcatch => ?_
    split
    · exact .fail _
    · rename_i hrange
      refine .pure ⟨last, hcatch, ?_, stop.toNat_lt, handler.toNat_lt, ?_⟩
      · simp only [Bool.or_eq_true, decide_eq_true_eq, ge_iff_le, UInt16.le_iff_toNat_le]
          at hrange
        simp only [InRange]
        omega
      · have hsame (v : UInt16) : v.toNat.toUInt16 = v := UInt16.ofNat_toNat
        simp only [hstart, hstop, hhandler, hsame, List.append_nil]
  complete := by
    rintro h _ ⟨catchType, hcatch, hrange, hstop, hhandler, rfl⟩
    have hstart : h.start < 65536 := hrange.1.trans hstop
    have hread := (index_parses p.optionalClassName).complete _ _ hcatch
    have hinside : ¬ (h.start.toUInt16 ≥ h.stop.toUInt16 || h.stop > codeLength ||
        h.handler ≥ codeLength) = true := by
      simp only [Bool.or_eq_true, decide_eq_true_eq, ge_iff_le, UInt16.le_iff_toNat_le,
        Bytes.toUInt16_toNat hstart, Bytes.toUInt16_toNat hstop]
      simp only [InRange] at hrange
      omega
    rw [← List.append_nil catchType]
    refine (Reads.u16 _).bind ((Reads.u16 _).bind ((Reads.u16 _).bind (hread.bind ?_)))
    rw [Bytes.toUInt16_toNat hstart, Bytes.toUInt16_toNat hstop, Bytes.toUInt16_toNat hhandler,
      if_neg hinside]
    exact .pure h

/-- A body is read from its form, all of it and nothing else. -/
theorem readBody_parses : Parses (readBody p) (BodyForm p) where
  sound := by
    refine Consumes.u16.bind fun maxStack _ hstack => Consumes.u16.bind fun maxLocals _ hlocals =>
      Consumes.u32.bind fun length _ hlength => (Consumes.take _).bind fun code _ hcode =>
      (readList_parses (readHandler_parses p _)).sound.bind fun handlers table htable =>
      (readList_parses (readAttribute_parses p)).sound.map fun attributes last hlast => ?_
    obtain ⟨rfl, hcode⟩ := hcode
    obtain ⟨hfits, hsized⟩ := sized_eq hcode
    rw [← hcode] at htable
    refine ⟨table, last, hfits, htable, hlast, ?_⟩
    rw [hsized, hstack, hlocals, hlength]
    simp only [List.append_assoc]
  complete := by
    rintro b _ ⟨table, last, hfits, htable, hlast, rfl⟩
    have hhandlers := (readList_parses (readHandler_parses p b.code.length)).complete _ _ htable
    have hattributes := (readList_parses (readAttribute_parses p)).complete _ _ hlast
    rw [sized, List.append_assoc]
    refine (Reads.u16 _).bind ((Reads.u16 _).bind ((Reads.u32 _).bind (hfits.take.bind ?_)))
    rw [Bytes.toUInt32_toNat hfits]
    exact hhandlers.bind (hattributes.map
      (MethodBody.mk b.maxStack b.maxLocals b.code b.handlers))

end Parsing

/-! ### A payload in its file -/

/-- Each item of a list stands in it where the items before it end. -/
theorem readList_frames {r : Reader α} (hr : SelfDelimiting r) {front back : List α} {a : α}
    {bytes : Bytes} (h : Reads (readList r) bytes (front ++ a :: back)) :
    ∃ before piece after, bytes = before ++ (piece ++ after) ∧ Reads r piece a ∧
      Frames (readList r) r before after fun a' => front ++ a' :: back := by
  obtain ⟨pieces, hcount, rfl, hpieces⟩ := (readList_consumes hr.reads).of_reads h
  obtain ⟨before, piece, after, rfl, hfront, hpiece, hback⟩ := forall₂_around hpieces
  refine ⟨Bytes.ofUInt16 (front ++ a :: back).length.toUInt16 ++ before.flatten, piece,
    after.flatten, by simp, hpiece, ?_⟩
  intro bytes' good a' ha'
  have hlength : (front ++ a :: back).length = (front ++ a' :: back).length := by simp
  rw [List.append_assoc]
  refine .after (Reads.u16 _) ?_
  rw [Bytes.toUInt16_toNat hcount, hlength]
  exact .many_around hfront.flip ha' hback.flip

/-- A method with a body has an attribute whose payload the body is read from. -/
theorem of_splitBody {p : Pool} {label : String} {all others : List Attribute} {body : MethodBody}
    (h : splitBody p label all = .ok (some body, others)) :
    ∃ front payload back, all = front ++ ⟨codeName, payload⟩ :: back ∧
      (∀ a ∈ front, a.name ≠ codeName) ∧ others = front ++ back := by
  simp only [splitBody] at h
  split at h
  · rename_i front a back hspan
    rw [List.span_eq_takeWhile_dropWhile] at hspan
    obtain ⟨hfront, hback⟩ := Prod.mk.inj hspan
    obtain ⟨hname, hall⟩ := eq_of_dropWhile hback
    have hcode : a.name = codeName := by simpa using hname
    rw [hfront] at hall
    refine ⟨front, a.data, back, ?_, ?_, ?_⟩
    · rw [hall, ← hcode]
    · intro x hx
      rw [← hfront] at hx
      simpa using List.mem_takeWhile_imp hx
    · split at h
      · cases h
        rfl
      · cases h
  · cases h

/-- The body is read from the payload of the first code attribute. -/
theorem splitBody_around {p : Pool} {label : String} {front back : List Attribute} {payload : Bytes}
    (hfront : ∀ a ∈ front, a.name ≠ codeName) {good : Prop} {body : MethodBody}
    (h : SucceedsIf ((readBody p).run label payload) good body) :
    SucceedsIf (splitBody p label (front ++ ⟨codeName, payload⟩ :: back)) good
      (some body, front ++ back) := by
  have hother : ∀ a ∈ front, (a.name != codeName) = true := fun a ha => by
    simpa using hfront a ha
  have hspan : (front ++ ⟨codeName, payload⟩ :: back).span (·.name != codeName) =
      (front, ⟨codeName, payload⟩ :: back) := by
    rw [List.span_eq_takeWhile_dropWhile, List.takeWhile_append_of_pos hother,
      List.dropWhile_append_of_pos hother]
    simp
  obtain ⟨hread, hgood⟩ := h
  simp only [splitBody, hspan]
  refine ⟨fun hg => by rw [hread hg], fun found hfound => ?_⟩
  split at hfound
  · rename_i b hb
    exact hgood b hb
  · cases hfound

theorem readMethod_parts (p : Pool) : Consumes (readMethod p) fun m bytes =>
    ∃ nameBytes descriptorBytes rest all,
      bytes = Bytes.ofUInt16 m.access.bits ++ (nameBytes ++ (descriptorBytes ++ rest)) ∧
      Reads (readText p) nameBytes m.name ∧ Reads (readText p) descriptorBytes m.descriptor ∧
      Reads (readAttributes p) rest all ∧
      splitBody p (m.name ++ m.descriptor) all = .ok (m.body, m.attributes) := by
  refine Consumes.u16.bind fun access _ haccess =>
    (readText_delimiting p).reads.bind fun name nameBytes hname =>
    (readText_delimiting p).reads.bind fun descriptor descriptorBytes hdescriptor =>
    (readAttributes_delimiting p).reads.bind fun all rest hall =>
    (Consumes.lift _).map ?_
  rintro found _ ⟨rfl, hsplit⟩
  exact ⟨nameBytes, descriptorBytes, rest, all, by simp [haccess], hname, hdescriptor, hall, hsplit⟩

/-- A payload of a method can be put in place of another one. The method is then read if a body can
be read from it. -/
theorem readMethod_payload {p : Pool} {m : MethodDecl} {body : MethodBody} {bytes : Bytes}
    (h : Reads (readMethod p) bytes m) (hbody : m.body = some body) :
    ∃ before payload after, bytes = before ++ (sized payload ++ after) ∧ Fits payload ∧
      ∀ payload', Fits payload' → ∀ good body',
        SucceedsIf ((readBody p).run (m.name ++ m.descriptor) payload') good body' →
          ReadsIf (readMethod p) (before ++ (sized payload' ++ after)) good
            { m with body := some body' } := by
  obtain ⟨nameBytes, descriptorBytes, rest, all, rfl, hname, hdescriptor, hall, hsplit⟩ :=
    (readMethod_parts p).of_reads h
  rw [hbody] at hsplit
  obtain ⟨front, payload, back, rfl, hfront, hothers⟩ := of_splitBody hsplit
  obtain ⟨first, piece, last, rfl, hpiece, hframes⟩ :=
    readList_frames (readAttribute_delimiting p) hall
  obtain ⟨index, hindex, hfits, rfl⟩ := (readAttribute_parses p).sound.of_reads hpiece
  refine ⟨Bytes.ofUInt16 m.access.bits ++ (nameBytes ++ (descriptorBytes ++ (first ++ index))),
    payload, last, by simp, hfits, ?_⟩
  intro payload' hfits' good body' hgood
  have hattribute : Reads (readAttribute p) (index ++ sized payload') ⟨codeName, payload'⟩ :=
    (readAttribute_parses p).complete _ _ ⟨index, hindex, hfits', rfl⟩
  have hattributes := hframes.reads hattribute
  have hread : ReadsIf (readMethod p) _ good
      ⟨m.access, m.name, m.descriptor, some body', front ++ back⟩ :=
    readMethod_readsIf hname hdescriptor hattributes (splitBody_around hfront hgood)
  rw [← hothers] at hread
  simpa only [List.append_assoc] using hread

theorem readMembers_frames (minor major : UInt16) (p : Pool) :
    Consumes (readMembers minor major p) fun d bytes => d.pool = p ∧ ∃ before methods after,
      bytes = before ++ (methods ++ after) ∧ Reads (readList (readMethod p)) methods d.methods ∧
      Frames (readMembers minor major p) (readList (readMethod p)) before after
        fun found => { d with methods := found } := by
  refine Consumes.u16.bind fun access accessBytes haccess =>
    (readClass_delimiting p).reads.bind fun name nameBytes hname =>
    (readOptionalClass_delimiting p).reads.bind fun superName superBytes hsuper =>
    (readList_delimiting (readClass_delimiting p)).reads.bind fun interfaces interfaceBytes
      hinterfaces =>
    (readList_delimiting (readField_delimiting p)).reads.bind fun fields fieldBytes hfields =>
    (readList_delimiting (readMethod_delimiting p)).reads.bind fun methods methodBytes hmethods =>
    (readAttributes_delimiting p).reads.map fun attributes last hattributes => ?_
  subst haccess
  refine ⟨rfl, Bytes.ofUInt16 access ++ (nameBytes ++ (superBytes ++ (interfaceBytes ++ fieldBytes))),
    methodBytes, last, by simp, hmethods, ?_⟩
  intro bytes good found hfound
  simp only [List.append_assoc]
  exact .after (Reads.u16 _) (.after hname (.after hsuper (.after hinterfaces (.after hfields
    (.before hfound (hattributes.map fun attributes => ClassDecl.mk minor major ⟨access⟩ name
      superName interfaces fields found attributes p))))))

theorem readDeclaration_frames : Consumes readDeclaration fun d bytes => ∃ before methods after,
    bytes = before ++ (methods ++ after) ∧ Reads (readList (readMethod d.pool)) methods d.methods ∧
    Frames readDeclaration (readList (readMethod d.pool)) before after
      fun found => { d with methods := found } := by
  refine readHeader_delimiting.reads.bind fun version header hheader =>
    Pool.read_delimiting.reads.bind fun p poolBytes hpool =>
    (readMembers_frames version.1 version.2 p).imp ?_
  rintro d _ ⟨hsame, before, methods, after, rfl, hmethods, hframes⟩
  subst hsame
  refine ⟨header ++ (poolBytes ++ before), methods, after, by simp, hmethods, ?_⟩
  intro bytes good found hfound
  simp only [List.append_assoc]
  exact .after hheader (.after hpool (hframes bytes good found hfound))

theorem parse_succeedsIf {bytes : Bytes} {good : Prop} {d : ClassDecl}
    (h : ReadsIf readDeclaration bytes good d) (label : String) :
    SucceedsIf (parse label bytes) good d := by
  refine ⟨fun hgood => parse_eq_ok_iff_reads.mpr (h.1 hgood), fun found hfound => ?_⟩
  exact (h.2 "" [] 0 _ _ (parse_eq_ok_iff_reads.mp hfound "" [] 0)).1

/-- In an accepted file every method with a body has a payload, in whose place any other payload is
accepted exactly if it begins with a form of a body, which is then that of the method. Nothing needs
to stand behind that form, and whatever does is not looked at. -/
theorem parse_payload_iff {label : String} {bytes : Bytes} {d : ClassDecl}
    (h : parse label bytes = .ok d) {front back : List MethodDecl} {m : MethodDecl}
    {body : MethodBody} (hmethods : d.methods = front ++ m :: back) (hbody : m.body = some body) :
    ∃ before payload after, bytes = before ++ (sized payload ++ after) ∧ Fits payload ∧
      ∀ payload', Fits payload' → ∀ label' found,
        parse label' (before ++ (sized payload' ++ after)) = .ok found ↔
          ∃ body' content spare, payload' = content ++ spare ∧ BodyForm d.pool body' content ∧
            found = { d with methods := front ++ { m with body := some body' } :: back } := by
  obtain ⟨first, methodBytes, last, rfl, hreads, hframes⟩ :=
    readDeclaration_frames.of_reads (parse_eq_ok_iff_reads.mp h)
  rw [hmethods] at hreads
  obtain ⟨first', piece, last', rfl, hmethod, hframes'⟩ :=
    readList_frames (readMethod_delimiting d.pool) hreads
  obtain ⟨before, payload, after, rfl, hfits, hpayload⟩ := readMethod_payload hmethod hbody
  refine ⟨first ++ first' ++ before, payload, after ++ (last' ++ last), by simp, hfits, ?_⟩
  intro payload' hfits' label' found
  have hfile {good : Prop} {body' : MethodBody}
      (hgood : SucceedsIf ((readBody d.pool).run (m.name ++ m.descriptor) payload') good body') :
      SucceedsIf (parse label' (first ++ first' ++ before ++ (sized payload' ++
        (after ++ (last' ++ last))))) good
        { d with methods := front ++ { m with body := some body' } :: back } := by
    have hread := (hframes.trans hframes') _ good _ (hpayload payload' hfits' good body' hgood)
    refine parse_succeedsIf ?_ label'
    simpa only [List.append_assoc, Function.comp_apply] using hread
  constructor
  · intro hfound
    cases hrun : (readBody d.pool).run (m.name ++ m.descriptor) payload' with
    | error e =>
      have hnone : SucceedsIf ((readBody d.pool).run (m.name ++ m.descriptor) payload') False
          body := ⟨False.elim, by rw [hrun]; nofun⟩
      exact absurd ((hfile hnone).2 found hfound) id
    | ok body' =>
      obtain ⟨content, spare, hcontent, hform⟩ := (readBody_parses d.pool).run_eq_ok_iff.mp hrun
      have hsame := (hfile (.of_ok hrun trivial)).1 trivial
      rw [hfound] at hsame
      exact ⟨body', content, spare, hcontent, hform, Except.ok.inj hsame⟩
  · rintro ⟨body', content, spare, hcontent, hform, rfl⟩
    have hrun : (readBody d.pool).run (m.name ++ m.descriptor) payload' = .ok body' :=
      (readBody_parses d.pool).run_eq_ok_iff.mpr ⟨content, spare, hcontent, hform⟩
    exact (hfile (.of_ok hrun trivial)).1 trivial

/-- A byte more at the end of the payload of the only method changes nothing. -/
theorem spare_byte_ignored : ∃ pool before payload after,
    guardedHeader ++ guardedPool ++ guardedMembers = before ++ (sized payload ++ after) ∧
    parse "A" (before ++ (sized payload ++ after)) = .ok { guarded with pool := pool } ∧
    parse "A" (before ++ (sized (payload ++ [0]) ++ after)) =
      .ok { guarded with pool := pool } := by
  obtain ⟨pool, hparse⟩ := parse_guarded_eq
  have hmethods : guarded.methods =
      [] ++ [⟨⟨9⟩, "m", "()V", some ⟨7, 7, [0xB1], [⟨0, 1, 0, none⟩], []⟩, []⟩] := rfl
  obtain ⟨before, payload, after, hfile, hfits, hiff⟩ := parse_payload_iff hparse hmethods rfl
  have hshort : Fits (payload ++ [0]) := by
    have hlength := congrArg List.length hfile
    have hwhole : (guardedHeader ++ guardedPool ++ guardedMembers).length = 83 := rfl
    simp only [hwhole, List.length_append, sized] at hlength
    simp only [Fits, List.length_append, List.length_singleton]
    omega
  rw [hfile] at hparse
  obtain ⟨body, content, spare, rfl, hform, hsame⟩ := (hiff payload hfits "A" _).mp hparse
  refine ⟨pool, before, content ++ spare, after, hfile, hparse, (hiff _ hshort "A" _).mpr ?_⟩
  exact ⟨body, content, spare ++ [0], List.append_assoc .., hform, hsame⟩

end ClassFile

end ClassAtlas
