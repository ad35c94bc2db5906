import ClassAtlas.Proofs.Pool.RoundTrip

/-!
Everything that can be asked of a pool, in any order. An index that is handed out stands for the same
thing in all pools that come later, and in the pool that is read back from the file form of the last
one; the file form is refused if the indices no longer fit 16 bits.
-/

namespace ClassAtlas.Pool

open Reader

/-- What can be asked of a pool. The answer is an index, and the pool may have grown. -/
inductive Request where
  | intern (c : Constant)
  | utf8 (s : String)
  | classEntry (name : String)
  | string (s : String)
  | integer (v : Int32)
  | nameAndType (name descriptor : String)
  | fieldRef (owner name descriptor : String)
  | methodRef (owner name descriptor : String) (interface : Bool)

namespace Request

/-- The second slot of a wide entry is never asked for. -/
def Proper : Request → Prop
  | intern c => c ≠ .unusable
  | _ => True

/-- The entry that a request comes down to, and the pool in which all that it refers to has an
index. -/
def parts (p : Pool) : Request → Constant × Pool
  | intern c => (c, p)
  | utf8 s => (.utf8 s, p)
  | classEntry name =>
    let n := p.utf8 name
    (.classRef n.1, n.2)
  | string s =>
    let t := p.utf8 s
    (.string t.1, t.2)
  | integer v => (.integer v, p)
  | nameAndType name descriptor =>
    let n := p.utf8 name
    let d := n.2.utf8 descriptor
    (.nameAndType n.1 d.1, d.2)
  | fieldRef owner name descriptor =>
    let c := p.classEntry owner
    let n := c.2.nameAndType name descriptor
    (.fieldRef c.1 n.1, n.2)
  | methodRef owner name descriptor interface =>
    let c := p.classEntry owner
    let n := c.2.nameAndType name descriptor
    (if interface then .interfaceMethodRef c.1 n.1 else .methodRef c.1 n.1, n.2)

/-- The entry that a request comes down to. -/
def entry (r : Request) (p : Pool) : Constant :=
  (r.parts p).1

/-- The index stands in the pool for what was asked for. -/
def Denoted (p : Pool) (i : UInt16) : Request → Prop
  | intern c => p.get? i = some c
  | utf8 s => p.utf8At i = .ok s
  | classEntry name => p.className i = .ok name
  | string s => ∃ t, p.get? i = some (.string t) ∧ p.utf8At t = .ok s
  | integer v => p.get? i = some (.integer v)
  | nameAndType name descriptor => p.nameAndTypeAt i = .ok (name, descriptor)
  | fieldRef owner name descriptor => (∃ c n, p.get? i = some (.fieldRef c n)) ∧
      p.memberRef i = .ok ⟨owner, name, descriptor, false⟩
  | methodRef owner name descriptor interface =>
      (∃ c n, p.get? i = some (if interface then .interfaceMethodRef c n else .methodRef c n)) ∧
        p.memberRef i = .ok ⟨owner, name, descriptor, interface⟩

end Request

/-- The index that is handed out, and the pool afterwards. -/
def answer (p : Pool) : Request → UInt16 × Pool
  | .intern c => p.intern c
  | .utf8 s => p.utf8 s
  | .classEntry name => p.classEntry name
  | .string s => p.string s
  | .integer v => p.integer v
  | .nameAndType name descriptor => p.nameAndType name descriptor
  | .fieldRef owner name descriptor => p.fieldRef owner name descriptor
  | .methodRef owner name descriptor interface => p.methodRef owner name descriptor interface

/-- The pool after requests, made one after the other. -/
def ask (p : Pool) (requests : List Request) : Pool :=
  requests.foldl (fun p r => (p.answer r).2) p

theorem answer_eq (p : Pool) (r : Request) : p.answer r = (r.parts p).2.intern (r.entry p) := by
  cases r with
  | intern c => rfl
  | utf8 s => rfl
  | classEntry name => simp only [answer, classEntry, Request.entry, Request.parts]
  | string s => simp only [answer, string, Request.entry, Request.parts]
  | integer v => rfl
  | nameAndType name descriptor => simp only [answer, nameAndType, Request.entry, Request.parts]
  | fieldRef owner name descriptor => simp only [answer, fieldRef, Request.entry, Request.parts]
  | methodRef owner name descriptor interface =>
    simp only [answer, methodRef, Request.entry, Request.parts]

/-! ### Indices that stay -/

/-- The second pool has all slots of the first, and finds every entry at the index at which the first
one does. -/
structure Later (p q : Pool) : Prop where
  slots : p.Extends q
  index : ∀ (c : Constant) (i : UInt16), p.index[c]? = some i → q.index[c]? = some i

theorem Later.refl (p : Pool) : p.Later p :=
  ⟨.refl p, fun _ _ h => h⟩

theorem Later.trans {p q r : Pool} (hpq : p.Later q) (hqr : q.Later r) : p.Later r :=
  ⟨hpq.slots.trans hqr.slots, fun c i h => hqr.index c i (hpq.index c i h)⟩

theorem later_intern (p : Pool) (c : Constant) : p.Later (p.intern c).2 := by
  unfold intern
  cases hc : p.index[c]? with
  | some i => exact .refl p
  | none =>
    refine ⟨.push p c, fun x i hx => ?_⟩
    have hindex : (p.push c).index = p.index.insertIfNew c p.entries.size.toUInt16 := rfl
    rw [hindex, Std.HashMap.getElem?_insertIfNew, if_neg]
    · exact hx
    · rintro ⟨heq, _⟩
      rw [← eq_of_beq heq, hc] at hx
      cases hx

theorem later_utf8 (p : Pool) (s : String) : p.Later (p.utf8 s).2 :=
  later_intern p _

theorem later_classEntry (p : Pool) (name : String) : p.Later (p.classEntry name).2 :=
  (later_utf8 p name).trans (later_intern _ _)

theorem later_nameAndType (p : Pool) (name descriptor : String) :
    p.Later (p.nameAndType name descriptor).2 :=
  ((later_utf8 p name).trans (later_utf8 _ descriptor)).trans (later_intern _ _)

theorem later_parts (p : Pool) (r : Request) : p.Later (r.parts p).2 := by
  cases r with simp only [Request.parts]
  | intern c => exact .refl p
  | utf8 s => exact .refl p
  | classEntry name => exact later_utf8 p name
  | string s => exact later_utf8 p s
  | integer v => exact .refl p
  | nameAndType name descriptor => exact (later_utf8 p name).trans (later_utf8 _ descriptor)
  | fieldRef owner name descriptor =>
    exact (later_classEntry p owner).trans (later_nameAndType _ name descriptor)
  | methodRef owner name descriptor interface =>
    exact (later_classEntry p owner).trans (later_nameAndType _ name descriptor)

theorem later_answer (p : Pool) (r : Request) : p.Later (p.answer r).2 := by
  rw [answer_eq]
  exact (later_parts p r).trans (later_intern _ _)

theorem later_ask (p : Pool) (requests : List Request) : p.Later (p.ask requests) := by
  induction requests generalizing p with
  | nil => exact .refl p
  | cons r requests ih => exact (later_answer p r).trans (ih _)

/-- A pool finds what it has been asked for at the index that it gave. -/
theorem index_intern (p : Pool) (c : Constant) :
    (p.intern c).2.index[c]? = some (p.intern c).1 := by
  unfold intern
  cases hc : p.index[c]? with
  | some i => exact hc
  | none =>
    have hindex : (p.push c).index = p.index.insertIfNew c p.entries.size.toUInt16 := rfl
    rw [hindex, Std.HashMap.getElem?_insertIfNew, if_pos]
    refine ⟨BEq.rfl, fun hmem => ?_⟩
    rw [Std.HashMap.mem_iff_isSome_getElem?, hc] at hmem
    cases hmem

section Again

variable {p q : Pool}

/-- Whoever asks again gets the same index, and the pool does not grow. -/
theorem intern_again {c : Constant} (h : (p.intern c).2.Later q) :
    q.intern c = ((p.intern c).1, q) := by
  rw [intern, h.index c _ (index_intern p c)]

theorem utf8_again {s : String} (h : (p.utf8 s).2.Later q) : q.utf8 s = ((p.utf8 s).1, q) :=
  intern_again h

theorem classEntry_again {name : String} (h : (p.classEntry name).2.Later q) :
    q.classEntry name = ((p.classEntry name).1, q) := by
  have hname := utf8_again ((later_intern (p.utf8 name).2 _).trans h)
  rw [classEntry, hname]
  exact intern_again h

theorem nameAndType_again {name descriptor : String} (h : (p.nameAndType name descriptor).2.Later q) :
    q.nameAndType name descriptor = ((p.nameAndType name descriptor).1, q) := by
  have hdescriptor := (later_intern ((p.utf8 name).2.utf8 descriptor).2 _).trans h
  have hname := (later_utf8 (p.utf8 name).2 descriptor).trans hdescriptor
  simp only [nameAndType, utf8_again hname, utf8_again hdescriptor]
  exact intern_again h

/-- In later pools a request comes down to the same entry, and all that it refers to is there. -/
theorem parts_again {r : Request} (h : (p.answer r).2.Later q) : r.parts q = (r.entry p, q) := by
  have hparts : (r.parts p).2.Later q := by
    rw [answer_eq] at h
    exact (later_intern _ _).trans h
  clear h
  cases r with simp only [Request.parts, Request.entry] at hparts ⊢
  | classEntry name => rw [utf8_again hparts]
  | string s => rw [utf8_again hparts]
  | nameAndType name descriptor =>
    have hname := (later_utf8 (p.utf8 name).2 descriptor).trans hparts
    rw [utf8_again hname, utf8_again hparts]
  | fieldRef owner name descriptor =>
    have howner := (later_nameAndType (p.classEntry owner).2 name descriptor).trans hparts
    rw [classEntry_again howner, nameAndType_again hparts]
  | methodRef owner name descriptor interface =>
    have howner := (later_nameAndType (p.classEntry owner).2 name descriptor).trans hparts
    rw [classEntry_again howner, nameAndType_again hparts]

theorem answer_again {r : Request} (h : (p.answer r).2.Later q) :
    q.answer r = ((p.answer r).1, q) := by
  rw [answer_eq q, Request.entry, parts_again h, answer_eq p]
  rw [answer_eq p] at h
  exact intern_again h

/-- Requests that come down to the same entry are given the same index. -/
theorem answer_same {r s : Request} (h : (p.answer r).2.Later q) (hsame : s.entry q = r.entry p) :
    (q.answer s).1 = (p.answer r).1 := by
  rw [answer_eq p] at h ⊢
  rw [answer_eq q, hsame, intern_again (h.trans (later_parts q s))]

end Again

/-! ### What indices stand for -/

theorem Grows.and {p q : Pool} {P Q : Pool → Prop} (h : p.Grows q P) (h' : p.Grows q Q) :
    p.Grows q fun r => P r ∧ Q r :=
  ⟨h.sound, h.kept, fun r hr hcount => ⟨h.lasting r hr hcount, h'.lasting r hr hcount⟩⟩

theorem entry_ne_unusable {r : Request} (hr : r.Proper) (p : Pool) : r.entry p ≠ .unusable := by
  cases r with
  | intern c => exact hr
  | methodRef owner name descriptor interface =>
    simp only [Request.entry, Request.parts]
    cases interface <;> simp
  | _ => simp [Request.entry, Request.parts]

theorem Sound.utf8 {p : Pool} (hp : p.Sound) (s : String) : (p.utf8 s).2.Sound := by
  rcases h : p.utf8 s with ⟨i, q⟩
  exact (utf8_spec hp h).sound

theorem Sound.classEntry {p : Pool} (hp : p.Sound) (name : String) :
    (p.classEntry name).2.Sound := by
  rcases h : p.classEntry name with ⟨i, q⟩
  exact (classEntry_spec hp h).sound

theorem Sound.nameAndType {p : Pool} (hp : p.Sound) (name descriptor : String) :
    (p.nameAndType name descriptor).2.Sound := by
  rcases h : p.nameAndType name descriptor with ⟨i, q⟩
  exact (nameAndType_spec hp h).sound

theorem parts_sound {p : Pool} (hp : p.Sound) (r : Request) : (r.parts p).2.Sound := by
  cases r with simp only [Request.parts]
  | intern c => exact hp
  | utf8 s => exact hp
  | classEntry name => exact hp.utf8 name
  | string s => exact hp.utf8 s
  | integer v => exact hp
  | nameAndType name descriptor => exact (hp.utf8 name).utf8 descriptor
  | fieldRef owner name descriptor => exact (hp.classEntry owner).nameAndType name descriptor
  | methodRef owner name descriptor interface =>
    exact (hp.classEntry owner).nameAndType name descriptor

/-- An entry that a pool has been asked for stands at the index that was handed out. -/
theorem answer_entry {p q : Pool} {i : UInt16} (hp : p.Sound) {r : Request} (hr : r.Proper)
    (h : p.answer r = (i, q)) : p.Grows q fun s => s.get? i = some (r.entry p) := by
  have hlater := later_answer p r
  rw [h] at hlater
  rw [answer_eq] at h
  obtain ⟨hsound, _, hlasting⟩ := intern_spec (parts_sound hp r) (entry_ne_unusable hr p) h
  exact ⟨hsound, hlater.slots, fun s hs hcount => (hlasting s hs hcount).2⟩

/-- The index that is handed out stands for the entry and for what was asked for, now and later. -/
theorem answer_spec {p q : Pool} {i : UInt16} (hp : p.Sound) {r : Request} (hr : r.Proper)
    (h : p.answer r = (i, q)) :
    p.Grows q fun s => s.get? i = some (r.entry p) ∧ r.Denoted s i := by
  have hentry := answer_entry hp hr h
  cases r with rw [answer] at h
  | intern c => exact hentry.imp fun s hs => ⟨hs, hs⟩
  | utf8 s => exact (hentry.and (utf8_spec hp h))
  | classEntry name => exact (hentry.and (classEntry_spec hp h)).imp fun s hs => ⟨hs.1, hs.2.2⟩
  | string s => exact hentry.and (string_spec hp h)
  | integer v => exact hentry.imp fun s hs => ⟨hs, hs⟩
  | nameAndType name descriptor => exact hentry.and (nameAndType_spec hp h)
  | fieldRef owner name descriptor =>
    simp only [Request.entry, Request.parts] at hentry ⊢
    exact (hentry.and (fieldRef_spec hp h)).imp fun s hs => ⟨hs.1, ⟨_, _, hs.1⟩, hs.2⟩
  | methodRef owner name descriptor interface =>
    simp only [Request.entry, Request.parts] at hentry ⊢
    exact (hentry.and (methodRef_spec hp h)).imp fun s hs => ⟨hs.1, ⟨_, _, hs.1⟩, hs.2⟩

theorem ask_append (p : Pool) (before after : List Request) :
    p.ask (before ++ after) = (p.ask before).ask after :=
  List.foldl_append

theorem ask_sound {p : Pool} (hp : p.Sound) {requests : List Request}
    (h : ∀ r ∈ requests, r.Proper) : (p.ask requests).Sound := by
  induction requests generalizing p with
  | nil => exact hp
  | cons r requests ih =>
    exact ih (answer_entry hp (h r List.mem_cons_self) rfl).sound
      fun s hs => h s (List.mem_cons_of_mem _ hs)

/-- Indices keep what they were handed out for. No request changes a slot; who
asks again gets the same index, and so does whoever asks for the same entry in another way; and if the
last pool has a file form, then it is read back with the same slots, and every index that was handed
out on the way stands there for what was asked for. -/
theorem indices_kept {p : Pool} (hp : p.Reachable) {requests : List Request}
    (hrequests : ∀ r ∈ requests, r.Proper) :
    (∀ before r after, requests = before ++ r :: after → ∀ (n : Nat) (c : Constant),
      (p.ask before).entries[n]? = some c →
        ((p.ask before).answer r).2.entries[n]? = some c) ∧
    (∀ before r between s after, requests = before ++ r :: (between ++ s :: after) →
      let q := p.ask before
      let q' := p.ask (before ++ r :: between)
      (s = r → q'.answer s = ((q.answer r).1, q')) ∧
      (s.entry q' = r.entry q → (q'.answer s).1 = (q.answer r).1)) ∧
    ∀ bytes, (p.ask requests).encode = .ok bytes → ∃ again : Pool,
      Reads read bytes again ∧ again.entries = (p.ask requests).entries ∧
      ∀ before r after, requests = before ++ r :: after →
        let answer := (p.ask before).answer r
        again.get? answer.1 = some (r.entry (p.ask before)) ∧ r.Denoted again answer.1 := by
  refine ⟨?_, ?_, ?_⟩
  · intro before r after _ n c hn
    obtain ⟨more, hmore⟩ := (later_answer (p.ask before) r).slots
    rw [← Array.getElem?_toList] at hn ⊢
    rw [← hmore, List.getElem?_append_left (List.getElem?_eq_some_iff.mp hn).1, hn]
  · intro before r between s after _ q q'
    have hlater : (q.answer r).2.Later q' := by
      have hq' : q' = (q.answer r).2.ask between := ask_append p before (r :: between)
      rw [hq']
      exact later_ask _ between
    refine ⟨?_, answer_same hlater⟩
    rintro rfl
    exact answer_again hlater
  · intro bytes hencode
    obtain ⟨hcount, again, hentries, hreads⟩ := reads_encode (ask_sound hp.sound hrequests) hencode
    refine ⟨again, hreads, hentries, ?_⟩
    rintro before r after rfl
    have hbefore : (p.ask before).Sound := ask_sound hp.sound fun s hs =>
      hrequests s (List.mem_append_left _ hs)
    have hr : r.Proper := hrequests r (List.mem_append_right _ List.mem_cons_self)
    have hlast : ((p.ask before).answer r).2.Extends again := by
      rw [Extends, hentries, ask_append]
      exact (later_ask _ after).slots
    refine (answer_spec hbefore hr rfl).lasting again hlast ?_
    rwa [slotCount, hentries]

/-- A wide number between a class and one of its methods, and the class once more by its entry. -/
def mixedRequests : List Request :=
  [.classEntry "A", .intern (.long 1), .methodRef "A" "m" "()V" true, .intern (.classRef 1)]

def mixedBytes : Bytes :=
  [0, 9, 1, 0, 1, 65, 7, 0, 1, 5, 0, 0, 0, 0, 0, 0, 0, 1, 1, 0, 1, 109, 1, 0, 3, 40, 41, 86,
    12, 0, 5, 0, 6, 11, 0, 2, 0, 7]

theorem ask_mixedRequests : (empty.ask mixedRequests).entries =
    #[.unusable, .utf8 "A", .classRef 1, .long 1, .unusable, .utf8 "m", .utf8 "()V",
      .nameAndType 5 6, .interfaceMethodRef 2 7] := by
  simp [ask, mixedRequests, answer, classEntry, methodRef, nameAndType, utf8, intern, push, empty,
    Constant.isWide, Std.HashMap.getElem_insertIfNew, Std.HashMap.mem_insertIfNew]

theorem mixedRequests_encoded : (empty.ask mixedRequests).encode = .ok mixedBytes := by
  rw [encode, slotCount, ask_mixedRequests]
  decide

theorem mixedRequests_restored : empty.Reachable ∧ (∀ r ∈ mixedRequests, r.Proper) ∧
    (empty.ask mixedRequests).encode = .ok mixedBytes ∧
    ∃ again : Pool, Reads read mixedBytes again ∧
      again.memberRef ((empty.ask (mixedRequests.take 2)).methodRef "A" "m" "()V" true).1 =
        .ok ⟨"A", "m", "()V", true⟩ ∧
      ((empty.ask (mixedRequests.take 3)).intern (.classRef 1)).1 = (empty.classEntry "A").1 := by
  have hproper : ∀ r ∈ mixedRequests, r.Proper := by
    simp [mixedRequests, Request.Proper]
  obtain ⟨_, hsame, hagain⟩ := indices_kept .empty hproper
  obtain ⟨again, hreads, _, hdenoted⟩ := hagain _ mixedRequests_encoded
  have hmethod := hdenoted (mixedRequests.take 2) _ _ rfl
  have hclass := (hsame [] (.classEntry "A") (mixedRequests.take 3).tail _ [] rfl).2
  refine ⟨.empty, hproper, mixedRequests_encoded, again, hreads, hmethod.2.2, hclass ?_⟩
  simp [Request.entry, Request.parts, ask, utf8, intern, empty]

end ClassAtlas.Pool
