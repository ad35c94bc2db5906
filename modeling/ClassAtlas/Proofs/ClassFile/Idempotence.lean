import ClassAtlas.Proofs.ClassFile.Reencoding
import ClassAtlas.Proofs.Pool.Requests

/-!
Encoding is idempotent. What has been emitted once is emitted again, byte for byte and with nothing
new, with every pool that has the slots that there were at the end; the pool that is read back from
the file is one of these. Limits that are computed anew come out the same, since they do not depend
on the stored ones and the code is resolved as before.
-/

namespace ClassAtlas

namespace Pool

variable {p q : Pool} {i : UInt16}

/-- Sound pools agree on the index of an entry if one of them has the slots of the other. -/
theorem Sound.index_later (hp : p.Sound) (hq : q.Sound) (h : p.Extends q) {c : Constant}
    (hc : c ≠ .unusable) (hi : p.index[c]? = some i) : q.index[c]? = some i := by
  rw [hp.indexed c hc, Option.map_eq_some_iff] at hi
  obtain ⟨n, hn, rfl⟩ := hi
  obtain ⟨more, hmore⟩ := h
  rw [hq.indexed c hc, ← hmore, idxOf?_append, hn]
  rfl

theorem intern_repeats {c : Constant} (hp : p.Sound) (hc : c ≠ .unusable)
    (h : p.intern c = (i, q)) : p.Grows q fun r => r.Sound → r.intern c = (i, r) := by
  have hindex := index_intern p c
  rw [h] at hindex
  obtain ⟨hsound, hkept, _⟩ := intern_spec hp hc h
  refine ⟨hsound, hkept, fun r hr _ hrs => ?_⟩
  rw [intern, hsound.index_later hrs hr hc hindex]

theorem utf8_repeats {s : String} (hp : p.Sound) (h : p.utf8 s = (i, q)) :
    p.Grows q fun r => r.Sound → r.utf8 s = (i, r) :=
  intern_repeats hp (by simp) h

theorem classEntry_repeats {name : String} (hp : p.Sound) (h : p.classEntry name = (i, q)) :
    p.Grows q fun r => r.Sound → r.classEntry name = (i, r) := by
  rcases hn : p.utf8 name with ⟨n, p₁⟩
  simp only [classEntry, hn] at h
  have hname := utf8_repeats hp hn
  refine (hname.trans (intern_repeats hname.sound (by simp) h)).imp ?_
  rintro r ⟨hname, hclass⟩ hr
  simp only [classEntry, hname hr]
  exact hclass hr

end Pool

/-- Limits are computed from the signature, the code and the handlers of a method alone, and no
differently with a pool that has grown. -/
theorem ClassDecl.limits_later {d d' : ClassDecl} {m m' : MethodDecl} {body body' : MethodBody}
    {limits : UInt16 × UInt16} (hname : d'.name = d.name) (hpool : d.pool.Extends d'.pool)
    (hm : m'.access = m.access ∧ m'.name = m.name ∧ m'.descriptor = m.descriptor)
    (hcode : body'.code = body.code) (hhandlers : body'.handlers = body.handlers)
    (h : d.limits m body = .ok limits) : d'.limits m' body' = .ok limits := by
  obtain ⟨haccess, hmethod, hdescriptor⟩ := hm
  unfold ClassDecl.limits at h ⊢
  simp only [MethodDecl.label, localsOf, hname, haccess, hmethod, hdescriptor, hhandlers] at h ⊢
  cases htype : MethodType.parse m.descriptor with
  | error e =>
    rw [htype] at h
    cases h
  | ok type =>
    cases hins : d.instructions body with
    | error e =>
      rw [htype, hins] at h
      cases h
    | ok instructions =>
      have hlater : d'.instructions body' = .ok instructions := by
        rw [ClassDecl.instructions, hname, hcode]
        exact Code.decode_later hpool hins
      rw [htype, hins] at h
      rw [hlater]
      exact h

namespace ClassFile

variable {α β : Type}

/-! ### Emitting again -/

/-- What the first emitter yields, the second one yields with every pool that comes later, and it
adds nothing to that pool. -/
def Repeats (first again : Emitter α) : Prop :=
  ∀ p a q, p.Sound → first p = .ok (a, q) → p.Grows q fun r => r.Sound → again r = .ok (a, r)

namespace Emitter

theorem pure_repeats (a : α) : Repeats (pure a) (pure a) := by
  intro p b q hp h
  cases h
  exact .refl hp fun _ _ => rfl

theorem fail_repeats (e : EncodeError) : Repeats (fail e : Emitter α) (fail e) := by
  intro p a q hp h
  cases h

theorem bind_repeats {first again : Emitter α} {f g : α → Emitter β} (h : Repeats first again)
    (hf : ∀ a, Repeats (f a) (g a)) : Repeats (first >>= f) (again >>= g) := by
  intro p b q hp hb
  obtain ⟨a, p₁, ha, hb⟩ := bind_eq_ok.mp hb
  have hfirst := h p a p₁ hp ha
  refine (hfirst.trans (hf a p₁ b q hfirst.sound hb)).imp ?_
  rintro r ⟨ha, hb⟩ hr
  exact bind_eq_ok.mpr ⟨a, r, ha hr, hb hr⟩

theorem text_repeats (s : String) : Repeats (text s) (text s) := by
  intro p bytes q hp h
  rcases hi : p.utf8 s with ⟨i, r⟩
  simp only [text, hi] at h
  cases h
  refine (Pool.utf8_repeats hp hi).imp fun r hr hrs => ?_
  rw [text, hr hrs]

theorem className_repeats (name : String) : Repeats (className name) (className name) := by
  intro p bytes q hp h
  rcases hi : p.classEntry name with ⟨i, r⟩
  simp only [className, hi] at h
  cases h
  refine (Pool.classEntry_repeats hp hi).imp fun r hr hrs => ?_
  rw [className, hr hrs]

theorem optionalClass_repeats (name : Option String) :
    Repeats (optionalClass name) (optionalClass name) := by
  cases name with
  | none => exact pure_repeats _
  | some name => exact className_repeats name

theorem count_repeats (n : Nat) (things : String) :
    Repeats (count n things) (count n things) := by
  unfold count
  split
  · exact pure_repeats _
  · exact fail_repeats _

theorem mapM_repeats {first : α → Emitter Bytes} {again : β → Emitter Bytes} {xs : List α}
    {ys : List β} (h : List.Forall₂ (fun x y => Repeats (first x) (again y)) xs ys) :
    Repeats (xs.mapM first) (ys.mapM again) := by
  induction h with
  | nil => exact pure_repeats []
  | cons hxy _ ih =>
    rw [List.mapM_cons, List.mapM_cons]
    exact bind_repeats hxy fun piece => bind_repeats ih fun pieces => pure_repeats _

theorem all_repeats {first : α → Emitter Bytes} {again : β → Emitter Bytes} {xs : List α}
    {ys : List β} (h : List.Forall₂ (fun x y => Repeats (first x) (again y)) xs ys) :
    Repeats (all first xs) (all again ys) :=
  bind_repeats (mapM_repeats h) fun _ => pure_repeats _

theorem list_repeats (things : String) {first : α → Emitter Bytes} {again : β → Emitter Bytes}
    {xs : List α} {ys : List β}
    (h : List.Forall₂ (fun x y => Repeats (first x) (again y)) xs ys) :
    Repeats (list things first xs) (list things again ys) := by
  rw [list, list, h.length_eq]
  exact bind_repeats (count_repeats _ _) fun _ => bind_repeats (all_repeats h) fun _ =>
    pure_repeats _

theorem each_repeats {item : α → Emitter Bytes} (h : ∀ x, Repeats (item x) (item x))
    (xs : List α) : List.Forall₂ (fun x y => Repeats (item x) (item y)) xs xs :=
  List.forall₂_same.mpr fun x _ => h x

end Emitter

open Emitter

/-! ### Parts of a class -/

theorem emitAttribute_repeats (a : Attribute) : Repeats (emitAttribute a) (emitAttribute a) := by
  refine bind_repeats (text_repeats a.name) fun name => ?_
  split
  · exact pure_repeats _
  · exact fail_repeats _

theorem emitAttributes_repeats (attributes : List Attribute) :
    Repeats (emitAttributes attributes) (emitAttributes attributes) :=
  list_repeats _ (each_repeats emitAttribute_repeats attributes)

theorem emitOffset_repeats (offset : Nat) : Repeats (emitOffset offset) (emitOffset offset) := by
  unfold emitOffset
  split
  · exact pure_repeats _
  · exact fail_repeats _

theorem emitHandler_repeats (h : Handler) : Repeats (emitHandler h) (emitHandler h) :=
  bind_repeats (emitOffset_repeats h.start) fun _ => bind_repeats (emitOffset_repeats h.stop)
    fun _ => bind_repeats (emitOffset_repeats h.handler) fun _ =>
      bind_repeats (optionalClass_repeats h.catchType) fun _ => pure_repeats _

theorem emitBody_repeats (body : MethodBody) (maxStack maxLocals : UInt16) :
    Repeats (emitBody body maxStack maxLocals) (emitBody body maxStack maxLocals) := by
  unfold emitBody
  split
  · exact bind_repeats (list_repeats _ (each_repeats emitHandler_repeats body.handlers)) fun _ =>
      bind_repeats (emitAttributes_repeats body.attributes) fun _ => pure_repeats _
  · exact fail_repeats _

theorem emitField_repeats (f : FieldDecl) : Repeats (emitField f) (emitField f) :=
  bind_repeats (text_repeats f.name) fun _ => bind_repeats (text_repeats f.descriptor) fun _ =>
    bind_repeats (emitAttributes_repeats f.attributes) fun _ => pure_repeats _

/-- The limits that come with a body, stored in it. -/
def stored (body : MethodBody × UInt16 × UInt16) : MethodBody × UInt16 × UInt16 :=
  (withLimits body, body.2)

/-- The stored limits are not looked at. -/
theorem emitCode_repeats (body : Option (MethodBody × UInt16 × UInt16)) :
    Repeats (emitCode body) (emitCode (body.map stored)) := by
  cases body with
  | none => exact pure_repeats _
  | some b =>
    exact bind_repeats (emitBody_repeats b.1 b.2.1 b.2.2) fun data =>
      emitAttribute_repeats ⟨codeName, data⟩

/-! ### Methods -/

section Methods

variable {d d' : ClassDecl} {recompute : Bool} {m m' : MethodDecl}

theorem Rewritten.attributes (h : Rewritten d recompute m m') :
    m'.attributes = m.attributes ∧ m'.body.isSome = m.body.isSome := by
  unfold Rewritten at h
  cases hbody : m.body with
  | none =>
    rw [hbody] at h
    rw [h, hbody]
    exact ⟨rfl, rfl⟩
  | some body =>
    rw [hbody] at h
    obtain ⟨maxStack, maxLocals, _, rfl⟩ := h
    exact ⟨rfl, rfl⟩

/-- The body that comes back gets the limits that it has. -/
theorem Rewritten.limitedBody_again {p q : Pool} {body : Option (MethodBody × UInt16 × UInt16)}
    (hm : Rewritten d recompute m m') (hname : d'.name = d.name) (hpool : d.pool.Extends d'.pool)
    (h : limitedBody d recompute m p = .ok (body, q)) (r : Pool) :
    limitedBody d' recompute m' r = .ok (body.map stored, r) := by
  have hsignature := hm.signature
  unfold Rewritten at hm
  unfold limitedBody at h ⊢
  cases hbody : m.body with
  | none =>
    rw [hbody] at h hm
    cases h
    rw [hm, hbody]
    rfl
  | some b =>
    rw [hbody] at h hm
    obtain ⟨limits, p₁, hlimits, h⟩ := bind_eq_ok.mp h
    cases h
    obtain ⟨_, hwritten⟩ := limitsOf_eq_ok hlimits
    obtain ⟨maxStack, maxLocals, hback, rfl⟩ := hm
    obtain ⟨rfl, hagain⟩ : limits = (maxStack, maxLocals) ∧
        limitsOf d' { m with body := some (withLimits (b, maxStack, maxLocals)) }
          (withLimits (b, maxStack, maxLocals)) recompute r = .ok ((maxStack, maxLocals), r) := by
      cases recompute with
      | false => exact ⟨hwritten.trans hback.symm, rfl⟩
      | true =>
        rw [if_pos rfl] at hwritten hback
        have hlater : d'.limits { m with body := some (withLimits (b, maxStack, maxLocals)) }
            (withLimits (b, maxStack, maxLocals)) = .ok (maxStack, maxLocals) :=
          ClassDecl.limits_later hname hpool hsignature rfl rfl hback
        refine ⟨Except.ok.inj (hwritten.symm.trans hback), ?_⟩
        simp only [limitsOf, if_true, hlater]
    exact bind_eq_ok.mpr ⟨_, r, hagain, rfl⟩

theorem emitMethod_repeats (hname : d'.name = d.name) (hpool : d.pool.Extends d'.pool)
    (hm : Rewritten d recompute m m') :
    Repeats (emitMethod d recompute m) (emitMethod d' recompute m') := by
  intro p bytes q hp h
  obtain ⟨haccess, hsame, hdescriptor⟩ := hm.signature
  obtain ⟨hattributes, hsome⟩ := hm.attributes
  obtain ⟨body, p₀, hbody, hemit⟩ := bind_eq_ok.mp h
  obtain ⟨rfl, _⟩ := limitedBody_spec hbody
  have hagain := hm.limitedBody_again hname hpool hbody
  simp only [emitMethod, haccess, hsame, hdescriptor, hattributes, hsome]
  have hrest := bind_repeats (text_repeats m.name) (fun _ =>
    bind_repeats (text_repeats m.descriptor) fun _ => bind_repeats (count_repeats _ _) fun _ =>
      bind_repeats (emitCode_repeats body) fun _ =>
        bind_repeats (all_repeats (each_repeats emitAttribute_repeats m.attributes)) fun _ =>
          pure_repeats _) _ _ _ hp hemit
  exact hrest.imp fun r hr hrs => bind_eq_ok.mpr ⟨_, r, hagain r, hr hrs⟩

end Methods

/-! ### Whole declarations -/

/-- The members of a declaration are emitted again for the declaration that comes back. -/
theorem emitMembers_repeats {d : ClassDecl} {recompute : Bool} {methods : List MethodDecl}
    {pool : Pool} (hmethods : List.Forall₂ (Rewritten d recompute) d.methods methods)
    (hpool : d.pool.Extends pool) :
    Repeats (emitMembers d recompute)
      (emitMembers { d with methods := methods, pool := pool } recompute) := by
  let d' := { d with methods := methods, pool := pool }
  have hname : d'.name = d.name := rfl
  have hkept : d.pool.Extends d'.pool := hpool
  have hall : List.Forall₂ (fun m m' => Repeats (emitMethod d recompute m)
      (emitMethod d' recompute m')) d.methods methods :=
    hmethods.imp fun _ _ hm => emitMethod_repeats hname hkept hm
  exact bind_repeats (className_repeats d.name) fun _ =>
    bind_repeats (optionalClass_repeats d.superName) fun _ =>
    bind_repeats (list_repeats _ (each_repeats className_repeats d.interfaces)) fun _ =>
    bind_repeats (list_repeats _ (each_repeats emitField_repeats d.fields)) fun _ =>
    bind_repeats (list_repeats _ hall) fun _ =>
    bind_repeats (emitAttributes_repeats d.attributes) fun _ => pure_repeats _

/-- What is read back from a file that was written is written again as the same file. -/
theorem write_again {d : ClassDecl} {recompute : Bool} {bytes : Bytes} (hpool : d.pool.Sound)
    (hhandlers : ∀ m ∈ d.methods, ∀ body ∈ m.body, ∀ x ∈ body.handlers, InRange body.code.length x)
    (hcode : ∀ m ∈ d.methods, m.body = none → ∀ a ∈ m.attributes, a.name ≠ codeName)
    (h : write d recompute = .ok bytes) (label : String) :
    ∃ d', parse label bytes = .ok d' ∧ write d' recompute = .ok bytes := by
  obtain ⟨members, p, poolBytes, hmembers, hencode, rfl⟩ := write_eq_ok.mp h
  obtain ⟨methods, pool, hmethods, hentries, hkept, hslots, hread, hreads⟩ :=
    emitted_reads hpool hcode hmembers hencode
  -- the pool that is read is laid out and indexed as the one that was written
  have hsame : p.Extends pool := ⟨[], by rw [List.append_nil, hentries]⟩
  have hsound : pool.Sound := (Pool.Reachable.read (hread label [] 0)).sound
  have hrepeats := emitMembers_repeats hmethods hkept
  have hagain := (hrepeats _ _ _ hpool hmembers).lasting pool hsame hslots hsound
  have hpoolBytes : pool.encode = .ok poolBytes := (Pool.encode_congr hentries).trans hencode
  exact ⟨_, by rw [parse, readFile_run hread (hreads.1 hhandlers) label],
    write_eq_ok.mpr ⟨members, pool, poolBytes, hagain, hpoolBytes, rfl⟩⟩

/-- Encoding is idempotent: what a file is read as is encoded with the same flags to the same file,
byte for byte. -/
theorem encode_idempotent {d : ClassDecl} {flags : WriterFlags} {bytes : Bytes}
    (hpool : d.pool.Reachable)
    (hhandlers : ∀ m ∈ d.methods, ∀ body ∈ m.body, ∀ x ∈ body.handlers, InRange body.code.length x)
    (hcode : ∀ m ∈ d.methods, m.body = none → ∀ a ∈ m.attributes, a.name ≠ codeName)
    (h : encode d flags = .ok bytes) (label : String) :
    ∃ d', parse label bytes = .ok d' ∧ encode d' flags = .ok bytes := by
  cases flags with
  | computeFrames => cases h
  | computeMaxs => exact write_again hpool.sound hhandlers hcode h label
  | none => exact write_again hpool.sound hhandlers hcode h label

end ClassFile

namespace Doubled

open ClassFile Reader

/-- The class gets an entry when it is written first, and is found there from then on. -/
theorem encode_grown : type.pool.Reachable ∧
    encode type .computeMaxs = .ok (header ++ newPool ++ newMembers) ∧
    ∃ d', parse "A" (header ++ newPool ++ newMembers) = .ok d' ∧
      encode d' .computeMaxs = .ok (header ++ newPool ++ newMembers) := by
  have hpool : Reads Pool.read pool type.pool := by
    rw [Pool.read_eq]
    exact (Pool.reads_stored (by decide) records_encoded).map Pool.ofRecords
  have hreachable : type.pool.Reachable := .read (hpool "A" [] 0)
  have hhandlers : ∀ m ∈ type.methods, ∀ body ∈ m.body, ∀ x ∈ body.handlers,
      InRange body.code.length x := by
    simp [type, method, body]
  have hcode : ∀ m ∈ type.methods, m.body = none → ∀ a ∈ m.attributes, a.name ≠ codeName := by
    simp [type, method]
  exact ⟨hreachable, encode_type, encode_idempotent hreachable hhandlers hcode encode_type "A"⟩

end Doubled

end ClassAtlas
