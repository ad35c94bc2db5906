import ClassAtlas.Pool.Codec
import ClassAtlas.Proofs.Bytes.Reading

/-!
Pools that grow by interning. Slots never change, a constant is found by its first slot, and an index
that is handed out keeps its meaning in every later pool whose slots can be counted in 16 bits.
-/

namespace ClassAtlas

/-- The slots that an entry takes. -/
def Constant.slots (c : Constant) : List Constant :=
  if c.isWide then [c, .unusable] else [c]

namespace Pool

/-- The second pool has the slots of the first one, and may have more behind them. -/
def Extends (p q : Pool) : Prop :=
  p.entries.toList <+: q.entries.toList

theorem Extends.refl (p : Pool) : p.Extends p :=
  List.prefix_rfl

theorem Extends.trans {p q r : Pool} (hpq : p.Extends q) (hqr : q.Extends r) : p.Extends r :=
  List.IsPrefix.trans hpq hqr

/-- A pool as reading and interning build it: entries lie one after the other behind slot zero, and
the index holds the first slot of every entry. -/
structure Sound (p : Pool) : Prop where
  laidOut : ∃ cs : List Constant, (∀ c ∈ cs, c ≠ .unusable) ∧
    p.entries.toList = .unusable :: cs.flatMap Constant.slots
  indexed : ∀ c, c ≠ .unusable → p.index[c]? = (p.entries.toList.idxOf? c).map Nat.toUInt16

theorem empty_sound : Sound empty where
  laidOut := ⟨[], by simp, rfl⟩
  indexed c hc := by
    have hne : (Constant.unusable == c) = false := beq_false_of_ne hc.symm
    simp [empty, List.idxOf?_cons, hne]

theorem push_entries (p : Pool) (c : Constant) :
    (p.push c).entries.toList = p.entries.toList ++ c.slots := by
  simp only [push, Constant.slots]
  split <;> simp

theorem Extends.push (p : Pool) (c : Constant) : p.Extends (p.push c) :=
  ⟨c.slots, (push_entries p c).symm⟩

theorem idxOf?_append (xs ys : List Constant) (c : Constant) :
    (xs ++ ys).idxOf? c = (xs.idxOf? c).or ((ys.idxOf? c).map (· + xs.length)) := by
  simp only [List.idxOf?, List.findIdx?_append]

/-- Appending an entry keeps the pool sound, whether the entry is there already or not. -/
theorem Sound.push {p : Pool} (hp : p.Sound) {c : Constant} (hc : c ≠ .unusable) :
    (p.push c).Sound where
  laidOut := by
    obtain ⟨cs, hcs, hentries⟩ := hp.laidOut
    refine ⟨cs ++ [c], ?_, ?_⟩
    · intro x hx
      rcases List.mem_append.mp hx with hx | hx
      · exact hcs x hx
      · rw [List.mem_singleton.mp hx]
        exact hc
    · rw [push_entries, hentries]
      simp
  indexed x hx := by
    rw [push_entries, idxOf?_append]
    have hindex : (p.push c).index = p.index.insertIfNew c p.entries.size.toUInt16 := rfl
    have hslots : c.slots.idxOf? x = if c = x then some 0 else none := by
      have hne : (Constant.unusable == x) = false := beq_false_of_ne hx.symm
      unfold Constant.slots
      split <;> simp [List.idxOf?_cons, hne]
    rw [hindex, Std.HashMap.getElem?_insertIfNew, hslots, hp.indexed x hx]
    by_cases hcx : c = x
    · subst hcx
      have hmem : c ∈ p.index ↔ (p.entries.toList.idxOf? c).isSome := by
        rw [Std.HashMap.mem_iff_isSome_getElem?, hp.indexed c hc, Option.isSome_map]
      cases hfind : p.entries.toList.idxOf? c with
      | none => simp [hmem, hfind]
      | some k => simp [hmem, hfind]
    · simp [hcx]

/-- Whatever the pool comes to hold later, the statement is true of it while its slots can be counted
in 16 bits. -/
def Lasting (p : Pool) (P : Pool → Prop) : Prop :=
  ∀ q, p.Extends q → q.slotCount < 65536 → P q

theorem Lasting.later {p q : Pool} {P : Pool → Prop} (h : p.Lasting P) (hpq : p.Extends q) :
    q.Lasting P :=
  fun r hqr hcount => h r (hpq.trans hqr) hcount

theorem get?_of_getElem? {p : Pool} {n : Nat} {c : Constant} (hc : c ≠ .unusable)
    (hn : p.entries.toList[n]? = some c) (hcount : p.slotCount < 65536) :
    p.get? n.toUInt16 = some c := by
  obtain ⟨hlt, _⟩ := List.getElem?_eq_some_iff.mp hn
  have hsize : p.entries.toList.length = p.slotCount := by simp [slotCount]
  have hnat : n.toUInt16.toNat = n := Bytes.toUInt16_toNat (by omega)
  rw [get?, hnat, ← Array.getElem?_toList, hn]
  cases c <;> first | rfl | exact absurd rfl hc

/-- Slot zero holds no entry. -/
theorem Sound.ne_zero {p : Pool} (hp : p.Sound) {n : Nat} {c : Constant} (hc : c ≠ .unusable)
    (hn : p.entries.toList[n]? = some c) : n ≠ 0 := by
  rintro rfl
  obtain ⟨cs, _, hentries⟩ := hp.laidOut
  rw [hentries, List.getElem?_cons_zero, Option.some_inj] at hn
  exact hc hn.symm

/-- What an entry at a slot means for its index, now and later. -/
theorem Sound.lasting_get? {p : Pool} (hp : p.Sound) {n : Nat} {c : Constant} (hc : c ≠ .unusable)
    (hn : p.entries.toList[n]? = some c) :
    p.Lasting fun q => n.toUInt16 ≠ 0 ∧ q.get? n.toUInt16 = some c := by
  intro q hpq hcount
  obtain ⟨hlt, _⟩ := List.getElem?_eq_some_iff.mp hn
  have hq : q.entries.toList[n]? = some c := by
    obtain ⟨more, hmore⟩ := hpq
    rw [← hmore, List.getElem?_append_left hlt, hn]
  refine ⟨?_, get?_of_getElem? hc hq hcount⟩
  obtain ⟨hltq, _⟩ := List.getElem?_eq_some_iff.mp hq
  have hsize : q.entries.toList.length = q.slotCount := by simp [slotCount]
  have hnat : n.toUInt16.toNat = n := Bytes.toUInt16_toNat (by omega)
  intro hzero
  rw [hzero] at hnat
  exact hp.ne_zero hc hn hnat.symm

/-- The second pool comes from the first by interning, and the statement is true of it for good. -/
structure Grows (p q : Pool) (P : Pool → Prop) : Prop where
  sound : q.Sound
  kept : p.Extends q
  lasting : q.Lasting P

theorem Grows.refl {p : Pool} (hp : p.Sound) {P : Pool → Prop} (h : ∀ q, P q) : p.Grows p P :=
  ⟨hp, .refl p, fun q _ _ => h q⟩

theorem Grows.imp {p q : Pool} {P Q : Pool → Prop} (h : p.Grows q P) (himp : ∀ r, P r → Q r) :
    p.Grows q Q :=
  ⟨h.sound, h.kept, fun r hr hcount => himp r (h.lasting r hr hcount)⟩

/-- What was true after a first step is still true after a second one. -/
theorem Grows.trans {p q r : Pool} {P Q : Pool → Prop} (h : p.Grows q P) (h' : q.Grows r Q) :
    p.Grows r fun s => P s ∧ Q s :=
  ⟨h'.sound, h.kept.trans h'.kept,
    fun s hs hcount => ⟨h.lasting.later h'.kept s hs hcount, h'.lasting s hs hcount⟩⟩

/-- Interning keeps the pool sound and its slots, and the index that it hands out stands for the
constant from then on. -/
theorem intern_spec {p q : Pool} {c : Constant} {i : UInt16} (hp : p.Sound)
    (hc : c ≠ .unusable) (h : p.intern c = (i, q)) :
    p.Grows q fun r => i ≠ 0 ∧ r.get? i = some c := by
  unfold intern at h
  cases hindex : p.index[c]? with
  | some k =>
    rw [hindex] at h
    cases h
    rw [hp.indexed c hc, Option.map_eq_some_iff] at hindex
    obtain ⟨n, hn, rfl⟩ := hindex
    obtain ⟨hlt, hat, _⟩ := List.idxOf?_eq_some_iff.mp hn
    exact ⟨hp, .refl p, hp.lasting_get? hc (by rw [List.getElem?_eq_getElem hlt, hat])⟩
  | none =>
    rw [hindex] at h
    cases h
    have hat : (p.push c).entries.toList[p.entries.size]? = some c := by
      have hsize : p.entries.toList.length = p.entries.size := Array.length_toList
      rw [push_entries, ← hsize, List.getElem?_append_right (Nat.le_refl _), Nat.sub_self]
      unfold Constant.slots
      split <;> rfl
    exact ⟨hp.push hc, .push p c, (hp.push hc).lasting_get? hc hat⟩

theorem Sound.intern_found {p : Pool} (hp : p.Sound) {c : Constant} (hc : c ≠ .unusable) {n : Nat}
    (h : p.entries.toList.idxOf? c = some n) : p.intern c = (n.toUInt16, p) := by
  rw [intern, hp.indexed c hc, h]
  rfl

theorem Sound.intern_missing {p : Pool} (hp : p.Sound) {c : Constant} (hc : c ≠ .unusable)
    (h : p.entries.toList.idxOf? c = none) :
    p.intern c = (p.entries.size.toUInt16, p.push c) := by
  rw [intern, hp.indexed c hc, h]
  rfl

/-! ### What the indices of the single kinds of entries mean -/

variable {p q : Pool} {i : UInt16}

theorem utf8_spec {s : String} (hp : p.Sound) (h : p.utf8 s = (i, q)) :
    p.Grows q fun r => r.utf8At i = .ok s := by
  refine (intern_spec hp (by simp) h).imp ?_
  rintro r ⟨_, hr⟩
  rw [utf8At, hr]

theorem classEntry_spec {name : String} (hp : p.Sound) (h : p.classEntry name = (i, q)) :
    p.Grows q fun r => i ≠ 0 ∧ r.className i = .ok name := by
  rcases hn : p.utf8 name with ⟨n, p₁⟩
  simp only [classEntry, hn] at h
  have hname := utf8_spec hp hn
  refine (hname.trans (intern_spec hname.sound (by simp) h)).imp ?_
  rintro r ⟨htext, hzero, hr⟩
  exact ⟨hzero, by rw [className, hr]; exact htext⟩

theorem string_spec {s : String} (hp : p.Sound) (h : p.string s = (i, q)) :
    p.Grows q fun r => ∃ t, r.get? i = some (.string t) ∧ r.utf8At t = .ok s := by
  rcases ht : p.utf8 s with ⟨t, p₁⟩
  simp only [string, ht] at h
  have htext := utf8_spec hp ht
  refine (htext.trans (intern_spec htext.sound (by simp) h)).imp ?_
  rintro r ⟨hat, _, hr⟩
  exact ⟨t, hr, hat⟩

theorem integer_spec {v : Int32} (hp : p.Sound) (h : p.integer v = (i, q)) :
    p.Grows q fun r => r.get? i = some (.integer v) :=
  (intern_spec hp (by simp) h).imp fun _ hr => hr.2

theorem nameAndType_spec {name descriptor : String} (hp : p.Sound)
    (h : p.nameAndType name descriptor = (i, q)) :
    p.Grows q fun r => r.nameAndTypeAt i = .ok (name, descriptor) := by
  rcases hn : p.utf8 name with ⟨n, p₁⟩
  rcases hd : p₁.utf8 descriptor with ⟨d, p₂⟩
  simp only [nameAndType, hn, hd] at h
  have hname := utf8_spec hp hn
  have hdescriptor := hname.trans (utf8_spec hname.sound hd)
  refine (hdescriptor.trans (intern_spec hdescriptor.sound (by simp) h)).imp ?_
  rintro r ⟨⟨hn, hd⟩, _, hr⟩
  rw [nameAndTypeAt, hr]
  simp only [hn, hd]

/-- The entries of a member say what the member is, for whichever kind of reference they are put in. -/
theorem member_spec {owner name descriptor : String} {c n : UInt16} {p₁ p₂ : Pool}
    (hp : p.Sound) (hclass : p.classEntry owner = (c, p₁))
    (hnat : p₁.nameAndType name descriptor = (n, p₂)) (interface : Bool) :
    p.Grows p₂ fun r => r.member c n interface = .ok ⟨owner, name, descriptor, interface⟩ := by
  have howner := classEntry_spec hp hclass
  refine (howner.trans (nameAndType_spec howner.sound hnat)).imp ?_
  rintro r ⟨⟨_, hc⟩, hn⟩
  simp only [member, hc, hn]

theorem fieldRef_spec {owner name descriptor : String} (hp : p.Sound)
    (h : p.fieldRef owner name descriptor = (i, q)) :
    p.Grows q fun r => r.memberRef i = .ok ⟨owner, name, descriptor, false⟩ := by
  rcases hc : p.classEntry owner with ⟨c, p₁⟩
  rcases hn : p₁.nameAndType name descriptor with ⟨n, p₂⟩
  simp only [fieldRef, hc, hn] at h
  have hmember := member_spec hp hc hn false
  refine (hmember.trans (intern_spec hmember.sound (by simp) h)).imp ?_
  rintro r ⟨hm, _, hr⟩
  rw [memberRef, hr]
  exact hm

theorem methodRef_spec {owner name descriptor : String} {interface : Bool} (hp : p.Sound)
    (h : p.methodRef owner name descriptor interface = (i, q)) :
    p.Grows q fun r => r.memberRef i = .ok ⟨owner, name, descriptor, interface⟩ := by
  rcases hc : p.classEntry owner with ⟨c, p₁⟩
  rcases hn : p₁.nameAndType name descriptor with ⟨n, p₂⟩
  simp only [methodRef, hc, hn] at h
  have hmember := member_spec hp hc hn interface
  refine (hmember.trans (intern_spec hmember.sound (by cases interface <;> simp) h)).imp ?_
  rintro r ⟨hm, _, hr⟩
  rw [memberRef, hr]
  cases interface <;> exact hm

theorem invokeDynamic_spec {name descriptor : String} {nat : UInt16} {p₁ : Pool} (hp : p.Sound)
    (hnat : p.nameAndType name descriptor = (nat, p₁))
    (h : p₁.intern (.invokeDynamic 0 nat) = (i, q)) :
    p.Grows q fun r => r.invokeDynamic i = .ok (name, descriptor) := by
  have hn := nameAndType_spec hp hnat
  refine (hn.trans (intern_spec hn.sound (by simp) h)).imp ?_
  rintro r ⟨hn, _, hr⟩
  rw [invokeDynamic, hr]
  exact hn

/-! ### Entries that are there already -/

/-- No two indices stand for the same entry. -/
def Distinct (p : Pool) : Prop :=
  ∀ i j c, p.get? i = some c → p.get? j = some c → i = j

/-- Interning an entry that is there gives back the index at which it stands. -/
def Settled (p : Pool) : Prop :=
  ∀ i c, p.get? i = some c → p.intern c = (i, p)

theorem getElem?_of_get? {p : Pool} {i : UInt16} {c : Constant} (h : p.get? i = some c) :
    c ≠ .unusable ∧ p.entries.toList[i.toNat]? = some c := by
  rw [get?] at h
  split at h
  · cases h
  · rename_i hne
    rw [Array.getElem?_toList]
    refine ⟨fun hc => hne ?_, h⟩
    rw [h, hc]

theorem distinct_of_nodup {p : Pool} (h : p.entries.toList.Nodup) : p.Distinct := by
  intro i j c hi hj
  obtain ⟨_, hi⟩ := getElem?_of_get? hi
  obtain ⟨_, hj⟩ := getElem?_of_get? hj
  obtain ⟨hlt, _⟩ := List.getElem?_eq_some_iff.mp hi
  exact UInt16.toNat_inj.mp ((List.getElem?_inj hlt h).mp (hi.trans hj.symm))

/-- A pool without repeated entries is settled as long as its slots can be counted in 16 bits. -/
theorem Sound.settled {p : Pool} (hp : p.Sound) (hcount : p.slotCount < 65536)
    (hdistinct : p.Distinct) : p.Settled := by
  intro i c h
  obtain ⟨hc, hat⟩ := getElem?_of_get? h
  have hindex := hp.indexed c hc
  cases hfirst : p.entries.toList.idxOf? c with
  | none => exact absurd (List.mem_of_getElem? hat) (List.idxOf?_eq_none_iff.mp hfirst)
  | some n =>
    obtain ⟨hlt, hn, _⟩ := List.idxOf?_eq_some_iff.mp hfirst
    have hget := get?_of_getElem? hc (by rw [List.getElem?_eq_getElem hlt, hn]) hcount
    rw [hfirst, Option.map_some, hdistinct _ _ _ hget h] at hindex
    rw [intern, hindex]

namespace Settled

variable {p : Pool}

theorem utf8 (hp : p.Settled) {i : UInt16} {s : String} (h : p.utf8At i = .ok s) :
    p.utf8 s = (i, p) := by
  rw [utf8At] at h
  split at h
  · rename_i hget
    cases h
    exact hp _ _ hget
  · cases h

theorem classEntry (hp : p.Settled) {i : UInt16} {name : String} (h : p.className i = .ok name) :
    p.classEntry name = (i, p) := by
  rw [className] at h
  split at h
  · rename_i n hget
    simp only [Pool.classEntry, hp.utf8 h]
    exact hp _ _ hget
  · cases h

end Settled

end Pool

end ClassAtlas
