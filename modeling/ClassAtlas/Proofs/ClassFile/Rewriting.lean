import ClassAtlas.Proofs.ClassFile.RoundTrip
import ClassAtlas.Proofs.Pool.Texts

/-!
An untouched class is written as it was read. Every name of a file is found again at the index that
the file has for it, if no entry is repeated; then each part is emitted as the bytes that reading it
has taken, and the pool does not grow.
-/

namespace ClassAtlas.ClassFile

open Reader

variable {α β : Type}

namespace Emitter

theorem bind_ok {e : Emitter α} {f : α → Emitter β} {p q : Pool} {a : α} (h : e p = .ok (a, q)) :
    (e >>= f) p = f a q := by
  simp only [bind, StateT.bind, h, Except.bind]

/-- The emitted bytes are these, and the pool already has all that they refer to. -/
def Gives (e : Emitter Bytes) (p : Pool) (bytes : Bytes) : Prop :=
  e p = .ok (bytes, p)

theorem mapM_gives {item : α → Emitter Bytes} {p : Pool} {items : List α} {pieces : List Bytes}
    (h : List.Forall₂ (fun a piece => Gives (item a) p piece) items pieces) :
    items.mapM item p = .ok (pieces, p) := by
  induction h with
  | nil => rfl
  | cons ha _ ih =>
    rw [List.mapM_cons, bind_ok ha, bind_ok ih]
    rfl

theorem all_gives {item : α → Emitter Bytes} {p : Pool} {items : List α} {pieces : List Bytes}
    (h : List.Forall₂ (fun a piece => Gives (item a) p piece) items pieces) :
    Gives (all item items) p pieces.flatten := by
  rw [Gives, all, bind_ok (mapM_gives h)]
  rfl

theorem count_gives {n : Nat} (hn : n < 65536) (things : String) (p : Pool) :
    Gives (count n things) p (Bytes.ofUInt16 n.toUInt16) := by
  rw [Gives, count, if_pos hn]
  rfl

theorem list_gives {item : α → Emitter Bytes} {p : Pool} {items : List α} {pieces : List Bytes}
    (hlength : items.length < 65536) (things : String)
    (h : List.Forall₂ (fun a piece => Gives (item a) p piece) items pieces) :
    Gives (list things item items) p
      (Bytes.ofUInt16 items.length.toUInt16 ++ pieces.flatten) := by
  rw [Gives, list, bind_ok (count_gives hlength things p), bind_ok (all_gives h)]
  rfl

end Emitter

open Emitter

/-! ### Names and lists -/

section Parts

variable {p : Pool}

theorem readText_gives (hp : p.Settled) :
    Consumes (readText p) fun s bytes => Gives (text s) p bytes := by
  refine Consumes.u16.bind fun i front hfront => (Consumes.lift _).imp ?_
  rintro s _ ⟨rfl, hs⟩
  rw [List.append_nil, hfront, Gives, text, hp.utf8 hs]

theorem readClass_gives (hp : p.Settled) :
    Consumes (readClass p) fun name bytes => Gives (className name) p bytes := by
  refine Consumes.u16.bind fun i front hfront => (Consumes.lift _).imp ?_
  rintro name _ ⟨rfl, hname⟩
  rw [List.append_nil, hfront, Gives, className, hp.classEntry hname]

theorem readOptionalClass_gives (hp : p.Settled) :
    Consumes (readOptionalClass p) fun name bytes => Gives (optionalClass name) p bytes := by
  refine Consumes.u16.bind fun i front hfront => (Consumes.lift _).imp ?_
  rintro name _ ⟨rfl, hname⟩
  rw [List.append_nil, hfront, Gives]
  rw [Pool.optionalClassName] at hname
  split at hname
  · rename_i hzero
    cases hname
    rw [hzero]
    rfl
  · split at hname
    · rename_i hclass
      cases hname
      rw [optionalClass, className, hp.classEntry hclass]
    · cases hname

/-- The items of a list lie one after the other behind their number. -/
theorem readList_consumes {r : Reader α} {P : α → Bytes → Prop} (hr : Consumes r P) :
    Consumes (readList r) fun items bytes => ∃ pieces, items.length < 65536 ∧
      bytes = Bytes.ofUInt16 items.length.toUInt16 ++ pieces.flatten ∧
      List.Forall₂ P items pieces := by
  refine Consumes.u16.bind fun n front hfront => (hr.many n.toNat).imp ?_
  rintro items _ ⟨hlength, pieces, rfl, hpieces⟩
  have hn : items.length.toUInt16 = n := by
    rw [hlength]
    exact UInt16.ofNat_toNat
  exact ⟨pieces, hlength ▸ n.toNat_lt, by rw [hn, hfront], hpieces⟩

theorem readList_gives {r : Reader α} {item : α → Emitter Bytes}
    (hr : Consumes r fun a bytes => Gives (item a) p bytes) (things : String) :
    Consumes (readList r) fun items bytes => Gives (list things item items) p bytes := by
  refine (readList_consumes hr).imp ?_
  rintro items _ ⟨pieces, hlength, rfl, hpieces⟩
  exact list_gives hlength things hpieces

theorem length_toUInt32 {bytes : Bytes} {n : UInt32} (h : bytes.length = n.toNat) :
    bytes.length < 4294967296 ∧ bytes.length.toUInt32 = n := by
  refine ⟨h ▸ n.toNat_lt, ?_⟩
  rw [h]
  exact UInt32.ofNat_toNat

theorem readAttribute_gives (hp : p.Settled) :
    Consumes (readAttribute p) fun a bytes => Gives (emitAttribute a) p bytes := by
  refine (readText_gives hp).bind fun name front hname =>
    Consumes.u32.bind fun length middle hmiddle => (Consumes.take _).map ?_
  rintro data _ ⟨hbytes, hdata⟩
  obtain ⟨hlt, hlength⟩ := length_toUInt32 hdata
  rw [Gives, emitAttribute, bind_ok hname, if_pos hlt, hlength, hbytes, hmiddle,
    ← List.append_assoc]
  rfl

theorem readAttributes_gives (hp : p.Settled) :
    Consumes (readAttributes p) fun attributes bytes => Gives (emitAttributes attributes) p bytes :=
  readList_gives (readAttribute_gives hp) "attributes"

theorem emitOffset_gives (offset : UInt16) :
    Gives (emitOffset offset.toNat) p (Bytes.ofUInt16 offset) := by
  rw [Gives, emitOffset, if_pos offset.toNat_lt, show offset.toNat.toUInt16 = offset from
    UInt16.ofNat_toNat]
  rfl

theorem readHandler_gives (hp : p.Settled) (codeLength : Nat) :
    Consumes (readHandler p codeLength) fun h bytes => Gives (emitHandler h) p bytes := by
  refine Consumes.u16.bind fun start _ hstart => Consumes.u16.bind fun stop _ hstop =>
    Consumes.u16.bind fun handler _ hhandler =>
    (readOptionalClass_gives hp).bind fun catchType _ hcatch => ?_
  split
  · exact .fail _
  · refine .pure ?_
    rw [Gives, emitHandler, bind_ok (emitOffset_gives start), bind_ok (emitOffset_gives stop),
      bind_ok (emitOffset_gives handler), bind_ok hcatch, hstart, hstop, hhandler]
    simp only [List.append_nil, List.append_assoc]
    rfl

/-- A body gives back the bytes that were read for it, with the limits as they are stored. -/
theorem readBody_gives (hp : p.Settled) :
    Consumes (readBody p) fun body bytes =>
      Gives (emitBody body body.maxStack body.maxLocals) p bytes := by
  refine Consumes.u16.bind fun maxStack _ hstack => Consumes.u16.bind fun maxLocals _ hlocals =>
    Consumes.u32.bind fun length _ hlength => (Consumes.take _).bind fun code _ hcode =>
    (readList_gives (readHandler_gives hp _) "exception handlers").bind
      fun handlers _ hhandlers => (readAttributes_gives hp).map fun attributes _ hattributes => ?_
  obtain ⟨hbytes, hcode⟩ := hcode
  obtain ⟨hlt, hsame⟩ := length_toUInt32 hcode
  rw [Gives, emitBody, if_pos hlt, bind_ok hhandlers, bind_ok hattributes, hstack, hlocals, hlength,
    hbytes, hsame]
  simp only [List.append_assoc]
  rfl

/-! ### Members -/

/-- The names and the attributes of a member are emitted as these bytes. -/
structure Parts (p : Pool) (f : FieldDecl) (name descriptor : Bytes) (pieces : List Bytes) :
    Prop where
  name : Gives (text f.name) p name
  descriptor : Gives (text f.descriptor) p descriptor
  count : f.attributes.length < 65536
  attributes : List.Forall₂ (fun a piece => Gives (emitAttribute a) p piece) f.attributes pieces

/-- The file form of a member from those of its parts. -/
def memberBytes (access : Access) (name descriptor : Bytes) (pieces : List Bytes) : Bytes :=
  Bytes.ofUInt16 access.bits ++ name ++ descriptor ++ Bytes.ofUInt16 pieces.length.toUInt16 ++
    pieces.flatten

theorem readField_parts (hp : p.Settled) :
    Consumes (readField p) fun f bytes => ∃ name descriptor pieces,
      Parts p f name descriptor pieces ∧ bytes = memberBytes f.access name descriptor pieces := by
  refine Consumes.u16.bind fun access _ haccess =>
    (readText_gives hp).bind fun name nameBytes hname =>
    (readText_gives hp).bind fun descriptor descriptorBytes hdescriptor =>
    (readList_consumes (readAttribute_gives hp)).map ?_
  rintro attributes _ ⟨pieces, hcount, rfl, hpieces⟩
  refine ⟨nameBytes, descriptorBytes, pieces, ⟨hname, hdescriptor, hcount, hpieces⟩, ?_⟩
  rw [memberBytes, haccess, hpieces.length_eq]
  simp only [List.append_assoc]

theorem readField_gives (hp : p.Settled) :
    Consumes (readField p) fun f bytes => Gives (emitField f) p bytes := by
  refine (readField_parts hp).imp ?_
  rintro f _ ⟨name, descriptor, pieces, h, rfl⟩
  have hattributes := list_gives h.count "attributes" h.attributes
  rw [Gives, emitField, bind_ok h.name, bind_ok h.descriptor, emitAttributes, bind_ok hattributes,
    memberBytes, h.attributes.length_eq]
  simp only [List.append_assoc]
  rfl

/-- The code attributes of a member are such that its body is written as it was read: one of them
is in front if there is any, and nothing is left of it behind the attributes of the body. -/
structure CodeAsWritten (p : Pool) (f : FieldDecl) : Prop where
  first : ∀ a ∈ f.attributes, a.name = codeName →
    ∃ front ∈ f.attributes.head?, front.name = codeName
  spent : ∀ a ∈ f.attributes, a.name = codeName → ∀ body c,
    readBody p (.start (f.name ++ f.descriptor) a.data) = .ok body c → c.rest = []

/-- The method is read from the same bytes as the member, with the body taken out. -/
structure SplitFrom (p : Pool) (m : MethodDecl) (f : FieldDecl) : Prop where
  access : m.access = f.access
  name : m.name = f.name
  descriptor : m.descriptor = f.descriptor
  split : splitBody p (f.name ++ f.descriptor) f.attributes = .ok (m.body, m.attributes)

/-- A member without code attribute has no body; otherwise the body is read from the whole of the
first attribute. -/
theorem SplitFrom.cases_body {m : MethodDecl} {f : FieldDecl} (h : SplitFrom p m f)
    (hcode : CodeAsWritten p f) :
    (m.body = none ∧ m.attributes = f.attributes) ∨
    ∃ a body c, f.attributes = a :: m.attributes ∧ a.name = codeName ∧ m.body = some body ∧
      readBody p (.start (f.name ++ f.descriptor) a.data) = .ok body c ∧ c.rest = [] := by
  have hsplit := h.split
  by_cases hany : ∃ a ∈ f.attributes, a.name = codeName
  · obtain ⟨other, hother, hnamed⟩ := hany
    obtain ⟨a, hhead, ha⟩ := hcode.first other hother hnamed
    obtain ⟨rest, hrest⟩ := List.head?_eq_some_iff.mp hhead
    have hspan : (a :: rest).span (·.name != codeName) = ([], a :: rest) := by
      simp [List.span_eq_takeWhile_dropWhile, ha]
    rw [hrest] at hsplit
    simp only [splitBody, hspan, Reader.run] at hsplit
    cases hread : readBody p (.start (f.name ++ f.descriptor) a.data) with
    | error e c =>
      rw [hread] at hsplit
      cases hsplit
    | ok body c =>
      rw [hread] at hsplit
      have hpair := Prod.mk.inj (Except.ok.inj hsplit)
      have hspent := hcode.spent a (hrest ▸ List.mem_cons_self) ha body c hread
      refine .inr ⟨a, body, c, ?_, ha, hpair.1.symm, hread, hspent⟩
      rw [hrest, ← hpair.2, List.nil_append]
  · have hnone : ∀ a ∈ f.attributes, a.name ≠ codeName := fun a ha hname => hany ⟨a, ha, hname⟩
    rw [splitBody_none hnone] at hsplit
    have hpair := Prod.mk.inj (Except.ok.inj hsplit)
    exact .inl ⟨hpair.1.symm, hpair.2.symm⟩

theorem emitMethod_gives {d : ClassDecl} {m : MethodDecl} {name descriptor : Bytes}
    {body : Option (MethodBody × UInt16 × UInt16)} (front : List Bytes) {pieces : List Bytes}
    (hname : Gives (text m.name) p name) (hdescriptor : Gives (text m.descriptor) p descriptor)
    (hbody : limitedBody d false m p = .ok (body, p)) (hcode : Gives (emitCode body) p front.flatten)
    (hfront : front.length = if m.body.isSome then 1 else 0)
    (hcount : (front ++ pieces).length < 65536)
    (hattributes : List.Forall₂ (fun a piece => Gives (emitAttribute a) p piece) m.attributes
      pieces) :
    Gives (emitMethod d false m) p
      (memberBytes m.access name descriptor (front ++ pieces)) := by
  have hlength : m.attributes.length + (if m.body.isSome then 1 else 0) =
      (front ++ pieces).length := by
    rw [List.length_append, hattributes.length_eq, ← hfront, Nat.add_comm]
  rw [← hlength] at hcount
  rw [Gives, emitMethod, bind_ok hbody, bind_ok hname, bind_ok hdescriptor,
    bind_ok (count_gives hcount _ p), bind_ok hcode, bind_ok (all_gives hattributes), memberBytes,
    List.flatten_append, ← hlength]
  simp only [List.append_assoc]
  rfl

/-- A method is emitted as the bytes of the member that it was split from. -/
theorem SplitFrom.gives {m : MethodDecl} {f : FieldDecl} (h : SplitFrom p m f) (hp : p.Settled)
    (hcode : CodeAsWritten p f) (d : ClassDecl) {name descriptor : Bytes} {pieces : List Bytes}
    (hparts : Parts p f name descriptor pieces) :
    Gives (emitMethod d false m) p (memberBytes f.access name descriptor pieces) := by
  have hname := hparts.name
  have hdescriptor := hparts.descriptor
  have hcount := hparts.count
  have hpieces := hparts.attributes
  rw [← h.name] at hname
  rw [← h.descriptor] at hdescriptor
  rw [hpieces.length_eq] at hcount
  rw [← h.access]
  rcases h.cases_body hcode with ⟨hnone, hsame⟩ | ⟨a, body, c, hall, ha, hsome, hread, hspent⟩
  · have hbody : limitedBody d false m p = .ok (none, p) := by
      rw [limitedBody, hnone]
      rfl
    rw [← hsame] at hpieces
    refine emitMethod_gives [] hname hdescriptor hbody rfl ?_ hcount hpieces
    rw [hnone]
    rfl
  · have hbody : limitedBody d false m p = .ok (some (body, body.maxStack, body.maxLocals), p) := by
      rw [limitedBody, hsome]
      rfl
    rw [hall] at hpieces
    obtain ⟨piece, rest, hpiece, hrest, rfl⟩ := List.forall₂_cons_left_iff.mp hpieces
    obtain ⟨data, ⟨_, hdata, _⟩, hgives⟩ := readBody_gives hp _ _ _ hread
    have hsame : data = a.data := by
      rw [hspent, List.append_nil] at hdata
      exact hdata.symm
    have hattribute : (⟨codeName, a.data⟩ : Attribute) = a := by rw [← ha]
    have hemit : Gives (emitCode (some (body, body.maxStack, body.maxLocals))) p
        [piece].flatten := by
      rw [hsame] at hgives
      rw [Gives, emitCode, bind_ok hgives, hattribute, List.flatten_singleton]
      exact hpiece
    refine emitMethod_gives [piece] hname hdescriptor hbody hemit ?_ hcount hrest
    rw [hsome]
    rfl

end Parts

/-! ### Whole files -/

theorem readMethod_along (p : Pool) : ReadsAlong (readMethod p) (readField p) (SplitFrom p) := by
  intro c m c' h
  obtain ⟨access, c₁, haccess, h⟩ := bind_eq_ok.mp h
  obtain ⟨name, c₂, hname, h⟩ := bind_eq_ok.mp h
  obtain ⟨descriptor, c₃, hdescriptor, h⟩ := bind_eq_ok.mp h
  obtain ⟨attributes, c₄, hattributes, h⟩ := bind_eq_ok.mp h
  obtain ⟨⟨body, rest⟩, c₅, hlift, h⟩ := bind_eq_ok.mp h
  cases h
  simp only [Reader.lift] at hlift
  split at hlift
  · rename_i hsplit
    cases hlift
    refine ⟨⟨⟨access⟩, name, descriptor, attributes⟩, ?_, rfl, rfl, rfl, hsplit⟩
    rw [readField, bind_ok haccess, bind_ok hname, bind_ok hdescriptor, bind_ok hattributes,
      Reader.pure_apply]
  · cases hlift

theorem readList_along {r : Reader α} {s : Reader β} {R : α → β → Prop} (h : ReadsAlong r s R) :
    ReadsAlong (readList r) (readList s) (List.Forall₂ R) := by
  intro c as c' has
  obtain ⟨n, d, hn, has⟩ := bind_eq_ok.mp has
  obtain ⟨bs, hbs, hall⟩ := h.many _ _ _ _ has
  exact ⟨bs, by rw [readList, bind_ok hn, hbs], hall⟩

/-- Reads up to the methods of a class, which are left with all attributes that they have. -/
def readWholeMethods (pool : Pool) : Reader (List FieldDecl) := do
  let _ ← Reader.u16
  let _ ← readClass pool
  let _ ← readOptionalClass pool
  let _ ← readList (readClass pool)
  let _ ← readList (readField pool)
  readList (readField pool)

theorem readMembers_gives {minor major : UInt16} {p : Pool} {d : ClassDecl} {c c' : Cursor}
    (h : readMembers minor major p c = .ok d c') :
    d.minor = minor ∧ d.major = major ∧ d.pool = p ∧
      ∃ methods c₁, readWholeMethods p c = .ok methods c₁ ∧
        (p.Settled → (∀ f ∈ methods, CodeAsWritten p f) →
          ∃ bytes, c.Over bytes c' ∧ Gives (emitMembers d false) p bytes) := by
  obtain ⟨access, c₁, haccess, h⟩ := bind_eq_ok.mp h
  obtain ⟨name, c₂, hname, h⟩ := bind_eq_ok.mp h
  obtain ⟨superName, c₃, hsuper, h⟩ := bind_eq_ok.mp h
  obtain ⟨interfaces, c₄, hinterfaces, h⟩ := bind_eq_ok.mp h
  obtain ⟨fields, c₅, hfields, h⟩ := bind_eq_ok.mp h
  obtain ⟨methods, c₆, hmethods, h⟩ := bind_eq_ok.mp h
  obtain ⟨attributes, c₇, hattributes, h⟩ := bind_eq_ok.mp h
  cases h
  obtain ⟨whole, hwhole, hsplit⟩ := readList_along (readMethod_along p) _ _ _ hmethods
  refine ⟨rfl, rfl, rfl, whole, c₆, ?_, fun hp hcode => ?_⟩
  · rw [readWholeMethods, bind_ok haccess, bind_ok hname, bind_ok hsuper, bind_ok hinterfaces,
      bind_ok hfields, hwhole]
  · obtain ⟨_, overAccess, rfl⟩ := Consumes.u16 _ _ _ haccess
    obtain ⟨_, overName, givesName⟩ := readClass_gives hp _ _ _ hname
    obtain ⟨_, overSuper, givesSuper⟩ := readOptionalClass_gives hp _ _ _ hsuper
    obtain ⟨_, overInterfaces, givesInterfaces⟩ :=
      readList_gives (readClass_gives hp) "interfaces" _ _ _ hinterfaces
    obtain ⟨_, overFields, givesFields⟩ :=
      readList_gives (readField_gives hp) "fields" _ _ _ hfields
    obtain ⟨_, overMethods, pieces, hcount, rfl, hpieces⟩ :=
      readList_consumes (readField_parts hp) _ _ _ hwhole
    obtain ⟨_, overAttributes, givesAttributes⟩ := readAttributes_gives hp _ _ _ hattributes
    have hall : List.Forall₂ (fun m piece => Gives (emitMethod ⟨minor, major, ⟨access⟩, name,
        superName, interfaces, fields, methods, attributes, p⟩ false m) p piece) methods pieces := by
      refine forall₂_compose hsplit hpieces ?_
      rintro m f hf _ hm ⟨nameBytes, descriptorBytes, attributePieces, hparts, rfl⟩
      exact hm.gives hp (hcode f hf) _ hparts
    rw [← hsplit.length_eq] at hcount overMethods
    have givesMethods := list_gives hcount "methods" hall
    refine ⟨_, overAccess.trans (overName.trans (overSuper.trans (overInterfaces.trans
      (overFields.trans (overMethods.trans overAttributes))))), ?_⟩
    rw [Gives, emitMembers, bind_ok givesName, bind_ok givesSuper, bind_ok givesInterfaces,
      bind_ok givesFields, bind_ok givesMethods, bind_ok givesAttributes]
    simp only [List.append_assoc]
    rfl

theorem readHeader_consumes : Consumes readHeader fun v bytes =>
    bytes = Bytes.ofUInt32 magic ++ Bytes.ofUInt16 v.1 ++ Bytes.ofUInt16 v.2 := by
  refine Consumes.u32.bind fun word _ hword => ?_
  split
  · rename_i hmagic
    refine Consumes.u16.bind fun minor _ hminor => Consumes.u16.map fun major _ hmajor => ?_
    rw [hword, hmagic, hminor, hmajor, List.append_assoc]
  · exact .fail _

/-- What a class file holds that is not kept in its declaration: the records of its pool, and its
methods with their attributes in order. -/
structure Stored where
  records : List Pool.Record
  methods : List FieldDecl

def Stored.pool (s : Stored) : Pool :=
  .ofRecords s.records

def readStored : Reader Stored := do
  let _ ← readHeader
  let records ← Pool.readStored
  let methods ← readWholeMethods (.ofRecords records)
  return ⟨records, methods⟩

/-- A file as it would be written: no entry is repeated, the texts are stored as they are encoded,
and code attributes come first and are used up. -/
structure Stored.Canonical (s : Stored) : Prop where
  distinct : s.pool.Distinct
  texts : ∀ r ∈ s.records, r.Kept
  code : ∀ f ∈ s.methods, CodeAsWritten s.pool f

theorem readFile_ok {c c' : Cursor} {d : ClassDecl} (h : readFile c = .ok d c') :
    ∃ minor major c₁ pool c₂, readHeader c = .ok (minor, major) c₁ ∧ Pool.read c₁ = .ok pool c₂ ∧
      readMembers minor major pool c₂ = .ok d c' ∧ c'.rest = [] := by
  obtain ⟨⟨minor, major⟩, c₁, hheader, h⟩ := bind_eq_ok.mp h
  obtain ⟨pool, c₂, hpool, h⟩ := bind_eq_ok.mp h
  obtain ⟨decl, c₃, hmembers, h⟩ := bind_eq_ok.mp h
  obtain ⟨left, c₄, hleft, h⟩ := bind_eq_ok.mp h
  cases hleft
  split at h
  · rename_i hzero
    cases h
    exact ⟨minor, major, c₁, pool, c₂, hheader, hpool, hmembers, List.length_eq_zero_iff.mp hzero⟩
  · cases h

theorem parse_ok {label : String} {bytes : Bytes} {d : ClassDecl} (h : parse label bytes = .ok d) :
    ∃ c, readFile (.start label bytes) = .ok d c := by
  simp only [parse, Reader.run] at h
  cases hread : readFile (.start label bytes) with
  | error e c =>
    rw [hread] at h
    cases h
  | ok decl c =>
    rw [hread] at h
    cases h
    exact ⟨c, rfl⟩

/-- Writing a canonical file again changes nothing. -/
theorem write_parse {label : String} {bytes : Bytes} {d : ClassDecl}
    (h : parse label bytes = .ok d) :
    ∃ s, readStored.run label bytes = .ok s ∧ d.pool = s.pool ∧
      (s.Canonical → write d false = .ok bytes) := by
  obtain ⟨c, hread⟩ := parse_ok h
  obtain ⟨minor, major, c₁, pool, c₂, hheader, hpool, hmembers, hend⟩ := readFile_ok hread
  obtain ⟨records, hrecords, hsame⟩ := Pool.read_records hpool
  obtain ⟨rfl, rfl, hdecl, methods, c₃, hmethods, hgives⟩ := readMembers_gives hmembers
  have hstored : readStored (.start label bytes) = .ok ⟨records, methods⟩ c₃ := by
    rw [hsame] at hmethods
    rw [readStored, bind_ok hheader, bind_ok hrecords, bind_ok hmethods,
      Reader.pure_apply]
  refine ⟨⟨records, methods⟩, by simp only [Reader.run, hstored], by rw [hdecl, hsame]; rfl, ?_⟩
  intro hcanonical
  obtain ⟨_, _, _, hcount, _⟩ := Pool.readStored_consumes _ _ _ hrecords
  rw [hsame] at hdecl hgives
  have hsettled : (Pool.ofRecords records).Settled :=
    (hsame ▸ (Pool.Reachable.read hpool).sound).settled hcount hcanonical.distinct
  obtain ⟨header, hover, rfl⟩ := readHeader_consumes _ _ _ hheader
  obtain ⟨poolBytes, hoverPool, hencode⟩ := Pool.encode_read hrecords hcanonical.texts
  obtain ⟨members, hoverMembers, hemit⟩ := hgives hsettled hcanonical.code
  have hbytes := (hover.trans (hoverPool.trans hoverMembers)).2.1
  rw [hend, List.append_nil] at hbytes
  change bytes = _ at hbytes
  rw [Gives] at hemit
  simp only [write, hdecl, hemit, hencode, hbytes, List.append_assoc]

/-- The records in the pool of the class with one method and one handler. -/
def guardedRecords : List Pool.Record :=
  [⟨[1, 0, 1, 65], .utf8 "A"⟩, ⟨[7, 0, 1], .classRef 1⟩, ⟨[1, 0, 1, 109], .utf8 "m"⟩,
    ⟨[1, 0, 3, 40, 41, 86], .utf8 "()V"⟩, ⟨[1, 0, 4, 67, 111, 100, 101], .utf8 "Code"⟩]

/-- The method of that class before its body is taken out of its attributes. -/
def guardedMethod : FieldDecl :=
  ⟨⟨9⟩, "m", "()V", [⟨"Code", [0, 7, 0, 7, 0, 0, 0, 1, 0xB1, 0, 1, 0, 0, 0, 1, 0, 0, 0, 0, 0, 0]⟩]⟩

theorem guardedRecords_encoded :
    ∀ r ∈ guardedRecords, r.entry ≠ .unusable ∧ r.entry.encode = .ok r.bytes := by
  decide

theorem readPool_guarded : Pool.readStored ⟨"A", guardedPool ++ guardedMembers, 8⟩ =
    .ok guardedRecords ⟨"A", guardedMembers, 8 + guardedPool.length⟩ :=
  Pool.reads_stored (by decide) guardedRecords_encoded "A" guardedMembers 8

theorem readStored_guarded :
    ∃ c, readStored (.start "A" (guardedHeader ++ guardedPool ++ guardedMembers)) =
      .ok ⟨guardedRecords, [guardedMethod]⟩ c := by
  have hheader : readHeader (.start "A" (guardedHeader ++ guardedPool ++ guardedMembers)) =
      .ok (0, 52) ⟨"A", guardedPool ++ guardedMembers, 8⟩ := rfl
  have hmethods : readWholeMethods (.ofRecords guardedRecords)
      ⟨"A", guardedMembers, 8 + guardedPool.length⟩ = .ok [guardedMethod] ⟨"A", [0, 0], 81⟩ := rfl
  rw [readStored, bind_ok hheader, bind_ok readPool_guarded, bind_ok hmethods]
  exact ⟨_, rfl⟩

/-- Without new limits the class comes back as it was written, with the pool of its file. -/
theorem parse_guarded_eq : ∃ pool, parse "A" (guardedHeader ++ guardedPool ++ guardedMembers) =
    .ok { guarded with pool := pool } := by
  have hcode : ∀ m ∈ guarded.methods, m.body = none → ∀ a ∈ m.attributes, a.name ≠ codeName := by
    simp [guarded]
  have hinside : ∀ m ∈ guarded.methods, HandlersInRange m.body := by
    simp [guarded, HandlersInRange, InRange]
  obtain ⟨methods, pool, hmethods, _, hparse⟩ :=
    write_conveys Pool.empty_sound hcode write_guarded
  obtain ⟨_, _, hm, hnone, rfl⟩ := List.forall₂_cons_left_iff.mp hmethods
  obtain ⟨_, _, hlimits, rfl⟩ := hm
  cases List.forall₂_nil_left_iff.mp hnone
  cases hlimits
  exact ⟨pool, (hparse "A").1 hinside⟩

theorem parse_guarded :
    ∃ d, parse "A" (guardedHeader ++ guardedPool ++ guardedMembers) = .ok d := by
  obtain ⟨_, hparse⟩ := parse_guarded_eq
  exact ⟨_, hparse⟩

theorem guarded_canonical : Stored.Canonical ⟨guardedRecords, [guardedMethod]⟩ where
  distinct := by
    refine Pool.distinct_of_nodup ?_
    rw [Stored.pool, Pool.ofRecords_entries]
    decide
  texts r hr := Pool.Record.kept_of_encode (guardedRecords_encoded r hr).2
  code := by
    intro f hf
    cases List.mem_singleton.mp hf
    refine ⟨fun a _ _ => ⟨_, rfl, rfl⟩, ?_⟩
    intro a ha _ body c hbody
    cases List.mem_singleton.mp ha
    have hread : readBody (Stored.pool ⟨guardedRecords, [guardedMethod]⟩)
        (.start "m()V" [0, 7, 0, 7, 0, 0, 0, 1, 0xB1, 0, 1, 0, 0, 0, 1, 0, 0, 0, 0, 0, 0]) =
          .ok ⟨7, 7, [0xB1], [⟨0, 1, 0, none⟩], []⟩ ⟨"m()V", [], 21⟩ := rfl
    cases hread.symm.trans hbody
    rfl

theorem guarded_rewritten : ∃ d s,
    parse "A" (guardedHeader ++ guardedPool ++ guardedMembers) = .ok d ∧
      readStored.run "A" (guardedHeader ++ guardedPool ++ guardedMembers) = .ok s ∧
      s.Canonical ∧ write d false = .ok (guardedHeader ++ guardedPool ++ guardedMembers) := by
  obtain ⟨d, hd⟩ := parse_guarded
  obtain ⟨c, hc⟩ := readStored_guarded
  have hrun : readStored.run "A" (guardedHeader ++ guardedPool ++ guardedMembers) =
      .ok ⟨guardedRecords, [guardedMethod]⟩ := by
    rw [Reader.run, hc]
  obtain ⟨s, hs, _, hwrite⟩ := write_parse hd
  cases hs.symm.trans hrun
  exact ⟨d, _, hd, hrun, guarded_canonical, hwrite guarded_canonical⟩

end ClassAtlas.ClassFile
