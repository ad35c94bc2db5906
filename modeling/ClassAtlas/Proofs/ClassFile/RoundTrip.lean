import ClassAtlas.ClassFile.Writer
import ClassAtlas.Proofs.Pool.RoundTrip
import Mathlib.Data.List.TakeDrop
import Mathlib.Data.List.TakeWhile

/-!
Reading undoes writing for whole declarations. Every part of a class file is read back as what it
was emitted for, by the pool at hand or any later one; so the members agree once all names are
interned, and the pool itself comes back slot by slot.
-/

namespace ClassAtlas.ClassFile

open Reader

variable {α β : Type}

/-- What is emitted is read back as a value with the property, by the pool that has grown meanwhile
or any that grows from it. -/
def Faithful (emit : Emitter Bytes) (read : Pool → Reader α) (P : α → Prop) : Prop :=
  ∀ p bytes q, p.Sound → emit p = .ok (bytes, q) →
    ∃ a, P a ∧ p.Grows q fun r => Reads (read r) bytes a

/-- What is emitted is read back so on the condition; otherwise reading it fails. -/
def FaithfulIf (emit : Emitter Bytes) (read : Pool → Reader α) (good : Prop) (P : α → Prop) : Prop :=
  ∀ p bytes q, p.Sound → emit p = .ok (bytes, q) →
    ∃ a, P a ∧ p.Grows q fun r => ReadsIf (read r) bytes good a

theorem Faithful.faithfulIf {emit : Emitter Bytes} {read : Pool → Reader α} {P : α → Prop}
    (h : Faithful emit read P) : FaithfulIf emit read True P := by
  intro p bytes q hp he
  obtain ⟨a, ha, hgrows⟩ := h p bytes q hp he
  exact ⟨a, ha, hgrows.imp fun _ hr => hr.readsIf⟩

theorem FaithfulIf.faithful {emit : Emitter Bytes} {read : Pool → Reader α} {good : Prop}
    {P : α → Prop} (h : FaithfulIf emit read good P) (hgood : good) : Faithful emit read P := by
  intro p bytes q hp he
  obtain ⟨a, ha, hgrows⟩ := h p bytes q hp he
  exact ⟨a, ha, hgrows.imp fun _ hr => hr.1 hgood⟩

namespace Emitter

theorem bind_eq_ok {e : Emitter α} {f : α → Emitter β} {p q : Pool} {b : β} :
    (e >>= f) p = .ok (b, q) ↔ ∃ a r, e p = .ok (a, r) ∧ f a r = .ok (b, q) := by
  constructor
  · intro h
    cases he : e p with
    | error x =>
      simp only [bind, StateT.bind, he, Except.bind] at h
      cases h
    | ok x =>
      simp only [bind, StateT.bind, he, Except.bind] at h
      exact ⟨x.1, x.2, rfl, h⟩
  · rintro ⟨a, r, he, hf⟩
    simp only [bind, StateT.bind, he, Except.bind]
    exact hf

theorem pure_apply (a : α) (p : Pool) : (pure a : Emitter α) p = .ok (a, p) := rfl

theorem text_faithful (s : String) : Faithful (text s) readText (Eq s) := by
  intro p bytes q hp h
  rcases hi : p.utf8 s with ⟨i, r⟩
  simp only [text, hi] at h
  cases h
  exact ⟨s, rfl, (Pool.utf8_spec hp hi).imp fun r hr => (Reads.u16 i).thenLift hr⟩

theorem className_faithful (name : String) : Faithful (className name) readClass (Eq name) := by
  intro p bytes q hp h
  rcases hi : p.classEntry name with ⟨i, r⟩
  simp only [className, hi] at h
  cases h
  exact ⟨name, rfl, (Pool.classEntry_spec hp hi).imp fun r hr => (Reads.u16 i).thenLift hr.2⟩

theorem optionalClass_faithful (name : Option String) :
    Faithful (optionalClass name) readOptionalClass (Eq name) := by
  intro p bytes q hp h
  cases name with
  | none =>
    cases h
    exact ⟨none, rfl, .refl hp fun r => (Reads.u16 0).thenLift rfl⟩
  | some name =>
    rcases hi : p.classEntry name with ⟨i, r⟩
    simp only [optionalClass, className, hi] at h
    cases h
    refine ⟨some name, rfl, (Pool.classEntry_spec hp hi).imp ?_⟩
    rintro r ⟨hzero, hname⟩
    refine (Reads.u16 i).thenLift ?_
    rw [Pool.optionalClassName, if_neg hzero, hname]

theorem count_eq_ok {n : Nat} {things : String} {p q : Pool} {bytes : Bytes}
    (h : count n things p = .ok (bytes, q)) :
    n < 65536 ∧ bytes = Bytes.ofUInt16 n.toUInt16 ∧ q = p := by
  unfold count at h
  split at h
  · rename_i hn
    cases h
    exact ⟨hn, rfl, rfl⟩
  · cases h

/-- Items are read back one after the other, each on its own condition. -/
theorem mapM_faithfulIf {item : α → Emitter Bytes} {read : Pool → Reader β} {good : α → Prop}
    {R : α → β → Prop} {xs : List α}
    (hitems : ∀ x ∈ xs, FaithfulIf (item x) read (good x) (R x)) {p q : Pool} {pieces : List Bytes}
    (hp : p.Sound) (h : xs.mapM item p = .ok (pieces, q)) :
    ∃ zs : List (α × β), zs.map Prod.fst = xs ∧ (∀ z ∈ zs, R z.1 z.2) ∧
      p.Grows q fun r =>
        List.Forall₂ (fun piece z => ReadsIf (read r) piece (good z.1) z.2) pieces zs := by
  induction xs generalizing p pieces with
  | nil =>
    cases h
    exact ⟨[], rfl, by simp, .refl hp fun _ => .nil⟩
  | cons x xs ih =>
    rw [List.mapM_cons] at h
    obtain ⟨piece, p₁, hx, h⟩ := bind_eq_ok.mp h
    obtain ⟨rest, p₂, hxs, h⟩ := bind_eq_ok.mp h
    cases h
    obtain ⟨y, hy, hgrows⟩ := hitems x List.mem_cons_self p piece p₁ hp hx
    obtain ⟨zs, rfl, hzs, hmore⟩ :=
      ih (fun x' hx' => hitems x' (List.mem_cons_of_mem _ hx')) hgrows.sound hxs
    exact ⟨(x, y) :: zs, rfl, List.forall_mem_cons.mpr ⟨hy, hzs⟩,
      (hgrows.trans hmore).imp fun r hr => .cons hr.1 hr.2⟩

theorem forall₂_of_pairs {R : α → β → Prop} {zs : List (α × β)} (h : ∀ z ∈ zs, R z.1 z.2) :
    List.Forall₂ R (zs.map Prod.fst) (zs.map Prod.snd) := by
  rw [List.forall₂_map_left_iff, List.forall₂_map_right_iff, List.forall₂_same]
  exact h

theorem mapM_faithful {item : α → Emitter Bytes} {read : Pool → Reader β} {R : α → β → Prop}
    {xs : List α} (hitems : ∀ x ∈ xs, Faithful (item x) read (R x)) {p q : Pool}
    {pieces : List Bytes} (hp : p.Sound) (h : xs.mapM item p = .ok (pieces, q)) :
    ∃ ys, List.Forall₂ R xs ys ∧
      p.Grows q fun r => List.Forall₂ (Reads (read r)) pieces ys := by
  obtain ⟨zs, rfl, hzs, hgrows⟩ := mapM_faithfulIf (fun x hx => (hitems x hx).faithfulIf) hp h
  refine ⟨zs.map Prod.snd, forall₂_of_pairs hzs, hgrows.imp fun r hr => ?_⟩
  rw [List.forall₂_map_right_iff]
  exact hr.imp fun _ _ hz => hz.1 trivial

theorem list_faithfulIf {things : String} {item : α → Emitter Bytes} {read : Pool → Reader β}
    {good : α → Prop} {R : α → β → Prop} {xs : List α}
    (hitems : ∀ x ∈ xs, FaithfulIf (item x) read (good x) (R x)) :
    FaithfulIf (list things item xs) (fun r => readList (read r)) (∀ x ∈ xs, good x)
      (List.Forall₂ R xs) := by
  intro p bytes q hp h
  obtain ⟨n, p₁, hn, h⟩ := bind_eq_ok.mp h
  obtain ⟨items, p₂, hall, h⟩ := bind_eq_ok.mp h
  cases h
  obtain ⟨pieces, p₃, hpieces, hall⟩ := bind_eq_ok.mp hall
  cases hall
  obtain ⟨hlt, rfl, rfl⟩ := count_eq_ok hn
  obtain ⟨zs, rfl, hzs, hgrows⟩ := mapM_faithfulIf hitems hp hpieces
  refine ⟨zs.map Prod.snd, forall₂_of_pairs hzs, hgrows.imp fun r hr => ?_⟩
  refine .after (Reads.u16 _) ?_
  rw [Bytes.toUInt16_toNat hlt, List.length_map]
  exact (ReadsIf.many hr).congr List.forall_mem_map.symm

theorem list_faithful {things : String} {item : α → Emitter Bytes} {read : Pool → Reader β}
    {R : α → β → Prop} {xs : List α} (hitems : ∀ x ∈ xs, Faithful (item x) read (R x)) :
    Faithful (list things item xs) (fun r => readList (read r)) (List.Forall₂ R xs) :=
  (list_faithfulIf fun x hx => (hitems x hx).faithfulIf).faithful fun _ _ => trivial

end Emitter

open Emitter

theorem forall₂_eq {xs ys : List α} (h : List.Forall₂ Eq xs ys) : xs = ys := by
  rwa [List.forall₂_eq_eq_eq] at h

theorem emitAttribute_faithful (a : Attribute) :
    Faithful (emitAttribute a) readAttribute (Eq a) := by
  intro p bytes q hp h
  obtain ⟨name, p₁, hname, h⟩ := Emitter.bind_eq_ok.mp h
  obtain ⟨_, rfl, hgrows⟩ := text_faithful a.name p name p₁ hp hname
  split at h
  · rename_i hlength
    cases h
    refine ⟨a, rfl, hgrows.imp fun r hr => ?_⟩
    have hdata : Reads (Reader.take a.data.length.toUInt32.toNat) a.data a.data := by
      rw [Bytes.toUInt32_toNat hlength]
      exact .take _
    rw [List.append_assoc]
    exact hr.bind ((Reads.u32 _).bind (hdata.map fun data => Attribute.mk a.name data))
  · cases h

theorem emitAttributes_faithful (attributes : List Attribute) :
    Faithful (emitAttributes attributes) readAttributes (Eq attributes) := by
  intro p bytes q hp h
  obtain ⟨ys, hys, hgrows⟩ :=
    list_faithful (fun a _ => emitAttribute_faithful a) p bytes q hp h
  exact ⟨ys, forall₂_eq hys, hgrows⟩

theorem emitOffset_eq_ok {offset : Nat} {p q : Pool} {bytes : Bytes}
    (h : emitOffset offset p = .ok (bytes, q)) :
    offset < 65536 ∧ bytes = Bytes.ofUInt16 offset.toUInt16 ∧ q = p := by
  unfold emitOffset at h
  split at h
  · rename_i hn
    cases h
    exact ⟨hn, rfl, rfl⟩
  · cases h

/-- The range and the entry of a handler lie in code of the given length. -/
def InRange (codeLength : Nat) (h : Handler) : Prop :=
  h.start < h.stop ∧ h.stop ≤ codeLength ∧ h.handler < codeLength

/-- An entry of the exception table is read back if and only if it lies in the code. -/
theorem emitHandler_faithfulIf (codeLength : Nat) (x : Handler) :
    FaithfulIf (emitHandler x) (fun r => readHandler r codeLength) (InRange codeLength x) (Eq x) := by
  intro p bytes q hp h
  obtain ⟨start, p₁, hstart, h⟩ := Emitter.bind_eq_ok.mp h
  obtain ⟨stop, p₂, hstop, h⟩ := Emitter.bind_eq_ok.mp h
  obtain ⟨handler, p₃, hhandler, h⟩ := Emitter.bind_eq_ok.mp h
  obtain ⟨catchType, p₄, hcatch, h⟩ := Emitter.bind_eq_ok.mp h
  cases h
  obtain ⟨hstartFits, rfl, rfl⟩ := emitOffset_eq_ok hstart
  obtain ⟨hstopFits, rfl, rfl⟩ := emitOffset_eq_ok hstop
  obtain ⟨hhandlerFits, rfl, rfl⟩ := emitOffset_eq_ok hhandler
  obtain ⟨_, rfl, hgrows⟩ := optionalClass_faithful x.catchType _ _ _ hp hcatch
  refine ⟨x, rfl, hgrows.imp fun r hr => ?_⟩
  have hstart' := Bytes.toUInt16_toNat hstartFits
  have hstop' := Bytes.toUInt16_toNat hstopFits
  have hhandler' := Bytes.toUInt16_toNat hhandlerFits
  have hrange : ¬ ((x.start.toUInt16 ≥ x.stop.toUInt16 || x.stop > codeLength ||
      x.handler ≥ codeLength) = true) ↔ InRange codeLength x := by
    simp only [InRange, Bool.or_eq_true, decide_eq_true_eq, ge_iff_le, UInt16.le_iff_toNat_le,
      hstart', hstop']
    omega
  rw [← List.append_nil (_ ++ _)]
  simp only [List.append_assoc]
  refine .after (Reads.u16 _) (.after (Reads.u16 _) (.after (Reads.u16 _) (.after hr ?_)))
  rw [hstart', hstop', hhandler']
  exact (ReadsIf.refusing _ _ _).congr hrange

/-- A body is read back with the limits that were written for it, if and only if all of its handlers
lie in its code. -/
theorem emitBody_faithfulIf (body : MethodBody) (maxStack maxLocals : UInt16) :
    FaithfulIf (emitBody body maxStack maxLocals) readBody
      (∀ x ∈ body.handlers, InRange body.code.length x)
      (Eq { body with maxStack := maxStack, maxLocals := maxLocals }) := by
  intro p bytes q hp h
  unfold emitBody at h
  split at h
  · rename_i hlength
    obtain ⟨handlers, p₁, hemit, h⟩ := Emitter.bind_eq_ok.mp h
    obtain ⟨attributes, p₂, hattributes, h⟩ := Emitter.bind_eq_ok.mp h
    cases h
    obtain ⟨xs, hxs, hgrows⟩ :=
      list_faithfulIf (fun x _ => emitHandler_faithfulIf body.code.length x) p _ _ hp hemit
    cases forall₂_eq hxs
    obtain ⟨_, rfl, hmore⟩ := emitAttributes_faithful body.attributes _ _ _ hgrows.sound hattributes
    refine ⟨_, rfl, (hgrows.trans hmore).imp fun r hr => ?_⟩
    obtain ⟨hreads, hrest⟩ := hr
    have hcode : Reads (Reader.take body.code.length.toUInt32.toNat) body.code body.code := by
      rw [Bytes.toUInt32_toNat hlength]
      exact .take _
    have hhandlers : ReadsIf (readList (readHandler r body.code.length.toUInt32.toNat)) handlers
        (∀ x ∈ body.handlers, InRange body.code.length x) body.handlers := by
      rwa [Bytes.toUInt32_toNat hlength]
    simp only [List.append_assoc]
    exact .after (Reads.u16 _) (.after (Reads.u16 _) (.after (Reads.u32 _) (.after hcode
      (.before hhandlers
        (hrest.map (MethodBody.mk maxStack maxLocals body.code body.handlers))))))
  · cases h

theorem emitField_faithful (f : FieldDecl) : Faithful (emitField f) readField (Eq f) := by
  intro p bytes q hp h
  obtain ⟨name, p₁, hname, h⟩ := Emitter.bind_eq_ok.mp h
  obtain ⟨descriptor, p₂, hdescriptor, h⟩ := Emitter.bind_eq_ok.mp h
  obtain ⟨attributes, p₃, hattributes, h⟩ := Emitter.bind_eq_ok.mp h
  cases h
  obtain ⟨_, rfl, hfirst⟩ := text_faithful f.name _ _ _ hp hname
  obtain ⟨_, rfl, hsecond⟩ := text_faithful f.descriptor _ _ _ hfirst.sound hdescriptor
  obtain ⟨_, rfl, hthird⟩ := emitAttributes_faithful f.attributes _ _ _ hsecond.sound hattributes
  refine ⟨f, rfl, ((hfirst.trans hsecond).trans hthird).imp fun r hr => ?_⟩
  obtain ⟨⟨hname, hdescriptor⟩, hattributes⟩ := hr
  simp only [List.append_assoc]
  exact (Reads.u16 _).bind (hname.bind (hdescriptor.bind
    (hattributes.map (FieldDecl.mk f.access f.name f.descriptor))))

/-! ### Methods -/

/-- The method as it comes back: its body has the limits that were written, which are computed or
taken as they are stored. -/
def Rewritten (d : ClassDecl) (recompute : Bool) (m m' : MethodDecl) : Prop :=
  match m.body with
  | none => m' = m
  | some body => ∃ maxStack maxLocals,
      (if recompute then d.limits m body = .ok (maxStack, maxLocals)
        else (maxStack, maxLocals) = (body.maxStack, body.maxLocals)) ∧
      m' = { m with body := some { body with maxStack := maxStack, maxLocals := maxLocals } }

theorem limitsOf_eq_ok {d : ClassDecl} {m : MethodDecl} {body : MethodBody} {recompute : Bool}
    {p q : Pool} {limits : UInt16 × UInt16}
    (h : limitsOf d m body recompute p = .ok (limits, q)) :
    q = p ∧ if recompute then d.limits m body = .ok limits
      else limits = (body.maxStack, body.maxLocals) := by
  unfold limitsOf at h
  cases recompute with
  | false =>
    cases h
    exact ⟨rfl, rfl⟩
  | true =>
    simp only [if_true] at h
    cases hlimits : d.limits m body with
    | error e =>
      rw [hlimits] at h
      cases h
    | ok found =>
      rw [hlimits] at h
      cases h
      exact ⟨rfl, rfl⟩

/-- The attribute in front is taken out of the list if the body that it holds can be read. -/
theorem splitBody_code {pool : Pool} {label : String} {data : Bytes} {body : MethodBody}
    {good : Prop} (attributes : List Attribute) (h : ReadsIf (readBody pool) data good body) :
    SucceedsIf (splitBody pool label (⟨codeName, data⟩ :: attributes)) good
      (some body, attributes) := by
  have hspan : (⟨codeName, data⟩ :: attributes : List Attribute).span (·.name != codeName) =
      ([], ⟨codeName, data⟩ :: attributes) := by
    simp [List.span_eq_takeWhile_dropWhile]
  obtain ⟨hread, hgood⟩ := h.run label
  unfold splitBody
  simp only [hspan, List.nil_append]
  refine ⟨fun h => by rw [hread h], fun found hfound => ?_⟩
  split at hfound
  · rename_i read hread
    exact hgood read hread
  · cases hfound

theorem splitBody_none {pool : Pool} {label : String} {attributes : List Attribute}
    (h : ∀ a ∈ attributes, a.name ≠ codeName) :
    splitBody pool label attributes = .ok (none, attributes) := by
  have hother : ∀ a ∈ attributes, (a.name != codeName) = true := fun a ha => by
    simpa using h a ha
  have hspan : attributes.span (·.name != codeName) = (attributes, []) := by
    rw [List.span_eq_takeWhile_dropWhile, List.takeWhile_eq_self_iff.mpr hother,
      List.dropWhile_eq_nil_iff.mpr hother]
  unfold splitBody
  simp only [hspan]

theorem readMethod_readsIf {pool : Pool} {access : Access}
    {nameBytes descriptorBytes bytes : Bytes} {name descriptor : String}
    {attributes others : List Attribute} {body : Option MethodBody} {good : Prop}
    (hname : Reads (readText pool) nameBytes name)
    (hdescriptor : Reads (readText pool) descriptorBytes descriptor)
    (hattributes : Reads (readAttributes pool) bytes attributes)
    (hsplit : SucceedsIf (splitBody pool (name ++ descriptor) attributes) good (body, others)) :
    ReadsIf (readMethod pool)
      (Bytes.ofUInt16 access.bits ++ (nameBytes ++ (descriptorBytes ++ bytes))) good
      ⟨access, name, descriptor, body, others⟩ := by
  refine .after (Reads.u16 _) (.after hname (.after hdescriptor ?_))
  rw [← List.append_nil bytes]
  refine .after hattributes ?_
  exact (ReadsIf.lift hsplit).before (.pure _)

theorem readAttributes_reads {pool : Pool} {pieces : List Bytes} {attributes : List Attribute}
    (h : List.Forall₂ (Reads (readAttribute pool)) pieces attributes)
    (hcount : attributes.length < 65536) :
    Reads (readAttributes pool)
      (Bytes.ofUInt16 attributes.length.toUInt16 ++ pieces.flatten) attributes := by
  refine (Reads.u16 _).bind ?_
  rw [Bytes.toUInt16_toNat hcount]
  exact .many h

theorem attributePieces_faithful {attributes : List Attribute} {p q : Pool} {pieces : List Bytes}
    (hp : p.Sound) (h : attributes.mapM emitAttribute p = .ok (pieces, q)) :
    p.Grows q fun r => List.Forall₂ (Reads (readAttribute r)) pieces attributes := by
  obtain ⟨ys, hys, hgrows⟩ := mapM_faithful (fun a _ => emitAttribute_faithful a) hp h
  rwa [← forall₂_eq hys] at hgrows

/-- The body with the limits that are written for it. -/
def withLimits : MethodBody × UInt16 × UInt16 → MethodBody
  | (body, maxStack, maxLocals) => { body with maxStack := maxStack, maxLocals := maxLocals }

/-- All handlers of a body, if there is one, lie in its code. -/
def HandlersInRange (body : Option MethodBody) : Prop :=
  ∀ b ∈ body, ∀ x ∈ b.handlers, InRange b.code.length x

/-- The attribute of a body, if there is one, stands alone in front and gives back the body, if the
handlers of the body lie in its code. -/
theorem emitCode_spec {body : Option (MethodBody × UInt16 × UInt16)} {p q : Pool}
    {bytes : Bytes} (hp : p.Sound) (h : emitCode body p = .ok (bytes, q)) :
    ∃ front pieces, front.length = (if body.isSome then 1 else 0) ∧ bytes = pieces.flatten ∧
      p.Grows q fun r => List.Forall₂ (Reads (readAttribute r)) pieces front ∧
        ∀ label rest, (body = none → ∀ a ∈ rest, a.name ≠ codeName) →
          SucceedsIf (splitBody r label (front ++ rest)) (HandlersInRange (body.map Prod.fst))
            (body.map withLimits, rest) := by
  cases body with
  | none =>
    cases h
    refine ⟨[], [], rfl, rfl, .refl hp fun r => ⟨.nil, fun label rest hrest => ?_⟩⟩
    exact .of_ok (splitBody_none (hrest rfl)) (by simp [HandlersInRange])
  | some b =>
    obtain ⟨body, maxStack, maxLocals⟩ := b
    obtain ⟨data, p₁, hdata, h⟩ := Emitter.bind_eq_ok.mp h
    obtain ⟨_, rfl, hbody⟩ := emitBody_faithfulIf body maxStack maxLocals _ _ _ hp hdata
    obtain ⟨_, rfl, hattribute⟩ := emitAttribute_faithful ⟨codeName, data⟩ _ _ _ hbody.sound h
    refine ⟨[⟨codeName, data⟩], [bytes], rfl, by simp, (hbody.trans hattribute).imp ?_⟩
    rintro r ⟨hbody, hattribute⟩
    have hgood : (∀ x ∈ body.handlers, InRange body.code.length x) ↔
        HandlersInRange (some body) := by
      simp [HandlersInRange]
    exact ⟨.cons hattribute .nil, fun label rest _ => splitBody_code rest (hbody.congr hgood)⟩

theorem limitedBody_spec {d : ClassDecl} {recompute : Bool} {m : MethodDecl} {p q : Pool}
    {body : Option (MethodBody × UInt16 × UInt16)}
    (h : limitedBody d recompute m p = .ok (body, q)) :
    q = p ∧ body.map Prod.fst = m.body ∧
      Rewritten d recompute m { m with body := body.map withLimits } := by
  unfold limitedBody at h
  cases hm : m.body with
  | none =>
    rw [hm] at h
    cases h
    refine ⟨rfl, rfl, ?_⟩
    simp only [Rewritten, hm]
    cases m
    cases hm
    rfl
  | some b =>
    rw [hm] at h
    obtain ⟨limits, p₁, hlimits, h⟩ := Emitter.bind_eq_ok.mp h
    cases h
    obtain ⟨rfl, hwritten⟩ := limitsOf_eq_ok hlimits
    refine ⟨rfl, rfl, ?_⟩
    simp only [Rewritten, hm]
    exact ⟨limits.1, limits.2, hwritten, rfl⟩

/-- A method comes back with its body, which is put in front of its other attributes, if and only
if the handlers of the body lie in its code. -/
theorem emitMethod_faithfulIf {d : ClassDecl} (recompute : Bool) {m : MethodDecl}
    (hcode : m.body = none → ∀ a ∈ m.attributes, a.name ≠ codeName) :
    FaithfulIf (emitMethod d recompute m) readMethod (HandlersInRange m.body)
      (Rewritten d recompute m) := by
  intro p bytes q hp h
  unfold emitMethod at h
  obtain ⟨body, p₀, hbody, h⟩ := Emitter.bind_eq_ok.mp h
  obtain ⟨name, p₁, hname, h⟩ := Emitter.bind_eq_ok.mp h
  obtain ⟨descriptor, p₂, hdescriptor, h⟩ := Emitter.bind_eq_ok.mp h
  obtain ⟨n, p₃, hcount, h⟩ := Emitter.bind_eq_ok.mp h
  obtain ⟨code, p₄, hcodeBytes, h⟩ := Emitter.bind_eq_ok.mp h
  obtain ⟨_, p₅, hall, h⟩ := Emitter.bind_eq_ok.mp h
  cases h
  obtain ⟨pieces, p₆, hpieces, hall⟩ := Emitter.bind_eq_ok.mp hall
  cases hall
  obtain ⟨rfl, hsame, hrewritten⟩ := limitedBody_spec hbody
  obtain ⟨hlt, rfl, rfl⟩ := count_eq_ok hcount
  obtain ⟨_, rfl, hfirst⟩ := text_faithful m.name _ _ _ hp hname
  obtain ⟨_, rfl, hsecond⟩ := text_faithful m.descriptor _ _ _ hfirst.sound hdescriptor
  obtain ⟨front, codePieces, hfront, rfl, hthird⟩ := emitCode_spec hsecond.sound hcodeBytes
  have hfourth := attributePieces_faithful hthird.sound hpieces
  have hlength : m.attributes.length + (if m.body.isSome = true then 1 else 0) =
      (front ++ m.attributes).length := by
    rw [List.length_append, hfront, ← hsame, Option.isSome_map, Nat.add_comm]
  refine ⟨_, hrewritten, (((hfirst.trans hsecond).trans hthird).trans hfourth).imp ?_⟩
  rintro r ⟨⟨⟨hname, hdescriptor⟩, hfrontReads, hsplit⟩, hattributes⟩
  rw [hlength] at hlt ⊢
  rw [hsame] at hsplit
  have hall := readAttributes_reads (List.rel_append hfrontReads hattributes) hlt
  have hnone : body = none → ∀ a ∈ m.attributes, a.name ≠ codeName := by
    rintro rfl
    exact hcode hsame.symm
  simp only [List.append_assoc]
  rw [← List.flatten_append]
  exact readMethod_readsIf hname hdescriptor hall (hsplit _ _ hnone)

/-! ### Whole declarations -/

theorem emitMembers_faithfulIf {d : ClassDecl} (recompute : Bool)
    (hcode : ∀ m ∈ d.methods, m.body = none → ∀ a ∈ m.attributes, a.name ≠ codeName) {p q : Pool}
    {bytes : Bytes} (hp : p.Sound) (h : emitMembers d recompute p = .ok (bytes, q)) :
    ∃ methods, List.Forall₂ (Rewritten d recompute) d.methods methods ∧
      p.Grows q fun r => ReadsIf (readMembers d.minor d.major r) bytes
        (∀ m ∈ d.methods, HandlersInRange m.body) { d with methods := methods, pool := r } := by
  obtain ⟨name, p₁, hname, h⟩ := Emitter.bind_eq_ok.mp h
  obtain ⟨superName, p₂, hsuper, h⟩ := Emitter.bind_eq_ok.mp h
  obtain ⟨interfaces, p₃, hinterfaces, h⟩ := Emitter.bind_eq_ok.mp h
  obtain ⟨fields, p₄, hfields, h⟩ := Emitter.bind_eq_ok.mp h
  obtain ⟨methods, p₅, hmethods, h⟩ := Emitter.bind_eq_ok.mp h
  obtain ⟨attributes, p₆, hattributes, h⟩ := Emitter.bind_eq_ok.mp h
  cases h
  obtain ⟨_, rfl, hone⟩ := className_faithful d.name _ _ _ hp hname
  obtain ⟨_, rfl, htwo⟩ := optionalClass_faithful d.superName _ _ _ hone.sound hsuper
  obtain ⟨names, hnames, hthree⟩ :=
    list_faithful (fun name _ => className_faithful name) _ _ _ htwo.sound hinterfaces
  cases forall₂_eq hnames
  obtain ⟨decls, hdecls, hfour⟩ :=
    list_faithful (fun f _ => emitField_faithful f) _ _ _ hthree.sound hfields
  cases forall₂_eq hdecls
  obtain ⟨written, hwritten, hfive⟩ :=
    list_faithfulIf (fun m hm => emitMethod_faithfulIf recompute (hcode m hm)) _ _ _ hfour.sound
      hmethods
  obtain ⟨_, rfl, hsix⟩ := emitAttributes_faithful d.attributes _ _ _ hfive.sound hattributes
  refine ⟨written, hwritten, (hone.trans (htwo.trans (hthree.trans
    (hfour.trans (hfive.trans hsix))))).imp ?_⟩
  rintro r ⟨hname, hsuper, hinterfaces, hfields, hmethods, hattributes⟩
  simp only [List.append_assoc]
  exact .after (Reads.u16 _) (.after hname (.after hsuper (.after hinterfaces (.after hfields
    (.before hmethods (hattributes.map fun attributes => ClassDecl.mk d.minor d.major d.access
      d.name d.superName d.interfaces d.fields written attributes r))))))

theorem readHeader_reads (minor major : UInt16) :
    Reads readHeader (Bytes.ofUInt32 magic ++ (Bytes.ofUInt16 minor ++ (Bytes.ofUInt16 major ++ [])))
      (minor, major) := by
  refine (Reads.u32 magic).bind ?_
  rw [if_pos rfl]
  exact (Reads.u16 minor).bind ((Reads.u16 major).bind (.pure _))

/-- Nothing is left behind the members. -/
theorem readFile_run {minor major : UInt16} {poolBytes members : Bytes} {pool : Pool} {d : ClassDecl}
    (hpool : Reads Pool.read poolBytes pool)
    (hmembers : Reads (readMembers minor major pool) members d) (label : String) :
    readFile.run label (Bytes.ofUInt32 magic ++ Bytes.ofUInt16 minor ++ Bytes.ofUInt16 major ++
      poolBytes ++ members) = .ok d := by
  have hheader := readHeader_reads minor major
  rw [List.append_nil, ← List.append_assoc] at hheader
  have hend := hmembers label [] (0 + (Bytes.ofUInt32 magic ++ Bytes.ofUInt16 minor ++
    Bytes.ofUInt16 major).length + poolBytes.length)
  rw [List.append_nil] at hend
  simp only [Reader.run, Cursor.start, readFile, List.append_assoc _ poolBytes, hheader.bind_eq,
    hpool.bind_eq, bind_ok hend]
  rfl

theorem readFile_succeedsIf {minor major : UInt16} {poolBytes members : Bytes} {pool : Pool}
    {d : ClassDecl} {good : Prop} (hpool : Reads Pool.read poolBytes pool)
    (hmembers : ReadsIf (readMembers minor major pool) members good d) (label : String) :
    SucceedsIf (readFile.run label (Bytes.ofUInt32 magic ++ Bytes.ofUInt16 minor ++
      Bytes.ofUInt16 major ++ poolBytes ++ members)) good d := by
  refine ⟨fun hgood => readFile_run hpool (hmembers.1 hgood) label, fun found hfound => ?_⟩
  have hheader := readHeader_reads minor major
  rw [List.append_nil, ← List.append_assoc] at hheader
  simp only [Reader.run, Cursor.start, readFile, List.append_assoc _ poolBytes, hheader.bind_eq,
    hpool.bind_eq] at hfound
  split at hfound
  · rename_i a c hread
    obtain ⟨d', c', hd', _⟩ := bind_eq_ok.mp hread
    rw [← List.append_nil members] at hd'
    exact (hmembers.2 _ _ _ _ _ hd').1
  · cases hfound

/-- A file is written if the members are emitted and the pool that they leave can be encoded. -/
theorem write_eq_ok {d : ClassDecl} {recompute : Bool} {bytes : Bytes} :
    write d recompute = .ok bytes ↔ ∃ members pool poolBytes,
      emitMembers d recompute d.pool = .ok (members, pool) ∧ pool.encode = .ok poolBytes ∧
      bytes = Bytes.ofUInt32 magic ++ Bytes.ofUInt16 d.minor ++ Bytes.ofUInt16 d.major ++
        poolBytes ++ members := by
  constructor
  · intro h
    simp only [write] at h
    split at h
    · cases h
    · rename_i members pool hmembers
      split at h
      · cases h
      · rename_i poolBytes hencode
        cases h
        exact ⟨members, pool, poolBytes, hmembers, hencode, rfl⟩
  · rintro ⟨members, pool, poolBytes, hmembers, hencode, rfl⟩
    simp only [write, hmembers, hencode]

/-- What is read back of what is emitted: a pool with the same entries, and with it the members, if
and only if all handlers lie in their code. -/
theorem emitted_reads {d : ClassDecl} {recompute : Bool} {members poolBytes : Bytes} {p : Pool}
    (hpool : d.pool.Sound)
    (hcode : ∀ m ∈ d.methods, m.body = none → ∀ a ∈ m.attributes, a.name ≠ codeName)
    (hmembers : emitMembers d recompute d.pool = .ok (members, p))
    (hencode : p.encode = .ok poolBytes) :
    ∃ methods pool, List.Forall₂ (Rewritten d recompute) d.methods methods ∧
      pool.entries = p.entries ∧ d.pool.Extends pool ∧ pool.slotCount < 65536 ∧
      Reads Pool.read poolBytes pool ∧
      ReadsIf (readMembers d.minor d.major pool) members (∀ m ∈ d.methods, HandlersInRange m.body)
        { d with methods := methods, pool := pool } := by
  obtain ⟨methods, hmethods, hgrows⟩ := emitMembers_faithfulIf recompute hcode hpool hmembers
  obtain ⟨hcount, pool, hentries, hread⟩ := Pool.reads_encode hgrows.sound hencode
  have hsame : p.Extends pool := ⟨[], by rw [List.append_nil, hentries]⟩
  have hslots : pool.slotCount < 65536 := by rwa [Pool.slotCount, hentries]
  exact ⟨methods, pool, hmethods, hentries, hgrows.kept.trans hsame, hslots, hread,
    hgrows.lasting pool hsame hslots⟩

/-- A file that was written can be read if and only if all handlers lie in their code. It then gives
back what was written. -/
theorem write_conveys {d : ClassDecl} {recompute : Bool} {bytes : Bytes} (hpool : d.pool.Sound)
    (hcode : ∀ m ∈ d.methods, m.body = none → ∀ a ∈ m.attributes, a.name ≠ codeName)
    (h : write d recompute = .ok bytes) :
    ∃ methods pool, List.Forall₂ (Rewritten d recompute) d.methods methods ∧
      d.pool.Extends pool ∧ ∀ label, SucceedsIf (parse label bytes)
        (∀ m ∈ d.methods, HandlersInRange m.body) { d with methods := methods, pool := pool } := by
  obtain ⟨members, p, poolBytes, hmembers, hencode, rfl⟩ := write_eq_ok.mp h
  obtain ⟨methods, pool, hmethods, -, hkept, -, hread, hreads⟩ :=
    emitted_reads hpool hcode hmembers hencode
  refine ⟨methods, pool, hmethods, hkept, fun label => ?_⟩
  obtain ⟨hsucceeds, hgood⟩ := readFile_succeedsIf hread hreads label
  refine ⟨fun h => by rw [parse, hsucceeds h], fun found hfound => ?_⟩
  simp only [parse] at hfound
  split at hfound
  · rename_i found' hfound'
    exact hgood found' hfound'
  · cases hfound

/-- Parsing undoes writing. -/
theorem parse_write {d : ClassDecl} {recompute : Bool} {bytes : Bytes} (hpool : d.pool.Reachable)
    (hhandlers : ∀ m ∈ d.methods, ∀ body ∈ m.body, ∀ x ∈ body.handlers, InRange body.code.length x)
    (hcode : ∀ m ∈ d.methods, m.body = none → ∀ a ∈ m.attributes, a.name ≠ codeName)
    (h : write d recompute = .ok bytes) (label : String) :
    ∃ methods pool, parse label bytes = .ok { d with methods := methods, pool := pool } ∧
      List.Forall₂ (Rewritten d recompute) d.methods methods ∧ d.pool.Extends pool := by
  obtain ⟨methods, pool, hmethods, hkept, hparse⟩ := write_conveys hpool.sound hcode h
  exact ⟨methods, pool, (hparse label).1 hhandlers, hmethods, hkept⟩

/-- A class with one method, whose body has a handler around its only instruction. -/
def guarded : ClassDecl where
  minor := 0
  major := 52
  access := ⟨0x21⟩
  name := "A"
  superName := none
  interfaces := []
  fields := []
  methods := [⟨⟨9⟩, "m", "()V", some ⟨7, 7, [0xB1], [⟨0, 1, 0, none⟩], []⟩, []⟩]
  attributes := []
  pool := .empty

def guardedHeader : Bytes := [0xCA, 0xFE, 0xBA, 0xBE, 0, 0, 0, 52]

def guardedPool : Bytes :=
  [0, 6, 1, 0, 1, 65, 7, 0, 1, 1, 0, 1, 109, 1, 0, 3, 40, 41, 86, 1, 0, 4, 67, 111, 100, 101]

def guardedMembers : Bytes :=
  [0, 33, 0, 2, 0, 0, 0, 0, 0, 0, 0, 1, 0, 9, 0, 3, 0, 4, 0, 1, 0, 5, 0, 0, 0, 21, 0, 7, 0, 7,
    0, 0, 0, 1, 0xB1, 0, 1, 0, 0, 0, 1, 0, 0, 0, 0, 0, 0, 0, 0]

theorem emitMembers_guarded : ∃ pool, emitMembers guarded false guarded.pool =
    .ok (guardedMembers, pool) ∧ pool.entries =
      #[.unusable, .utf8 "A", .classRef 1, .utf8 "m", .utf8 "()V", .utf8 "Code"] := by
  simp [emitMembers, emitMethod, emitCode, emitBody, emitHandler, emitOffset, emitAttributes,
    emitAttribute, limitedBody, limitsOf, Emitter.className, optionalClass, list, Emitter.all, count,
    text, bind, StateT.bind, Except.bind, Emitter.pure_apply, Pool.classEntry, Pool.utf8,
    Pool.intern, Pool.push, Pool.empty, Constant.isWide, Std.HashMap.mem_insertIfNew, List.mapM_cons,
    codeName, guarded, guardedMembers]
  decide

theorem write_guarded :
    write guarded false = .ok (guardedHeader ++ guardedPool ++ guardedMembers) := by
  obtain ⟨pool, hmembers, hentries⟩ := emitMembers_guarded
  have hencode : pool.encode = .ok guardedPool := by
    rw [Pool.encode, Pool.slotCount, hentries]
    decide
  simp only [write, hmembers, hencode]
  rfl

theorem guarded_restored : guarded.pool.Reachable ∧
    (∀ m ∈ guarded.methods, ∀ body ∈ m.body, ∀ x ∈ body.handlers, InRange body.code.length x) ∧
    (∀ m ∈ guarded.methods, m.body = none → ∀ a ∈ m.attributes, a.name ≠ codeName) ∧
    write guarded false = .ok (guardedHeader ++ guardedPool ++ guardedMembers) ∧
    ∃ methods pool, parse "A" (guardedHeader ++ guardedPool ++ guardedMembers) =
        .ok { guarded with methods := methods, pool := pool } ∧
      List.Forall₂ (Rewritten guarded false) guarded.methods methods ∧
      guarded.pool.Extends pool := by
  have hhandlers : ∀ m ∈ guarded.methods, ∀ body ∈ m.body, ∀ x ∈ body.handlers,
      InRange body.code.length x := by
    simp [guarded, InRange]
  have hcode : ∀ m ∈ guarded.methods, m.body = none → ∀ a ∈ m.attributes, a.name ≠ codeName := by
    simp [guarded]
  exact ⟨.empty, hhandlers, hcode, write_guarded,
    parse_write .empty hhandlers hcode write_guarded "A"⟩

end ClassAtlas.ClassFile
