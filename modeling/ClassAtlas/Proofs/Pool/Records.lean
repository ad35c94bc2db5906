import ClassAtlas.Proofs.Pool.Interning
import ClassAtlas.Proofs.Steps
import ClassAtlas.Proofs.Text.ModifiedUtf8

/-!
The records of a pool in its file form. A pool that is read consists of the entries of its records,
and it is written record by record.
-/

namespace ClassAtlas

open Reader

namespace Constant

theorem reads_index (f : UInt16 → Constant) (i : UInt16) :
    Reads (do return f (← Reader.u16)) (Bytes.ofUInt16 i ++ []) (f i) :=
  (Reads.u16 i).bind (.pure _)

theorem reads_indices (f : UInt16 → UInt16 → Constant) (a b : UInt16) :
    Reads (do return f (← Reader.u16) (← Reader.u16))
      (Bytes.ofUInt16 a ++ (Bytes.ofUInt16 b ++ [])) (f a b) :=
  (Reads.u16 a).bind ((Reads.u16 b).bind (.pure _))

/-- The record of an entry is read back as the entry. -/
theorem reads_encode {c : Constant} {bytes : Bytes} (hc : c ≠ .unusable)
    (h : c.encode = .ok bytes) : Reads read bytes c := by
  cases c with
  | utf8 s =>
    simp only [encode] at h
    split at h
    · rename_i hlt
      cases h
      have htake : Reads (Reader.take (ModifiedUtf8.encode s).length.toUInt16.toNat)
          (ModifiedUtf8.encode s) (ModifiedUtf8.encode s) := by
        rw [Bytes.toUInt16_toNat hlt]
        exact .take _
      have htext := htake.map fun bytes => utf8 (ModifiedUtf8.decode bytes)
      rw [ModifiedUtf8.decode_encode] at htext
      exact (Reads.u8 1).bind ((Reads.u16 _).bind htext)
    · cases h
  | integer v =>
    cases h
    exact (Reads.u8 3).bind ((Reads.u32 v.toUInt32).map fun w => integer w.toInt32)
  | float bits =>
    cases h
    exact (Reads.u8 4).bind ((Reads.u32 bits).map float)
  | long v =>
    cases h
    exact (Reads.u8 5).bind ((Reads.u64 v.toUInt64).map fun w => long w.toInt64)
  | double bits =>
    cases h
    exact (Reads.u8 6).bind ((Reads.u64 bits).map double)
  | classRef i =>
    cases h
    exact (Reads.u8 7).bind (reads_index .classRef i)
  | string i =>
    cases h
    exact (Reads.u8 8).bind (reads_index .string i)
  | fieldRef a b =>
    cases h
    exact (Reads.u8 9).bind (reads_indices .fieldRef a b)
  | methodRef a b =>
    cases h
    exact (Reads.u8 10).bind (reads_indices .methodRef a b)
  | interfaceMethodRef a b =>
    cases h
    exact (Reads.u8 11).bind (reads_indices .interfaceMethodRef a b)
  | nameAndType a b =>
    cases h
    exact (Reads.u8 12).bind (reads_indices .nameAndType a b)
  | methodHandle kind i =>
    cases h
    exact (Reads.u8 15).bind ((Reads.u8 kind).bind ((Reads.u16 i).map (methodHandle kind)))
  | methodType i =>
    cases h
    exact (Reads.u8 16).bind (reads_index .methodType i)
  | dynamic a b =>
    cases h
    exact (Reads.u8 17).bind (reads_indices .dynamic a b)
  | invokeDynamic a b =>
    cases h
    exact (Reads.u8 18).bind (reads_indices .invokeDynamic a b)
  | module i =>
    cases h
    exact (Reads.u8 19).bind (reads_index .module i)
  | package i =>
    cases h
    exact (Reads.u8 20).bind (reads_index .package i)
  | unusable => exact absurd rfl hc

/-- The record of a text that is stored in these bytes. -/
def textRecord (payload : Bytes) : Bytes :=
  1 :: Bytes.ofUInt16 payload.length.toUInt16 ++ payload

/-- How entries stand in files: a text in whatever bytes are read as it, and any other entry in its
only form. -/
inductive StoredAs : Constant → Bytes → Prop
  | text {payload : Bytes} (hlength : payload.length < 65536) :
    StoredAs (utf8 (ModifiedUtf8.decode payload)) (textRecord payload)
  | other {c : Constant} {tag : UInt8} {operands : Bytes} (htag : tag ≠ 1)
    (h : c.encode = .ok (tag :: operands)) : StoredAs c (tag :: operands)

theorem StoredAs.ne_unusable {c : Constant} {bytes : Bytes} (h : c.StoredAs bytes) :
    c ≠ .unusable := by
  rintro rfl
  cases h with
  | other _ hencode => cases hencode

theorem consumes_index {f : UInt16 → Constant} {tag : UInt8} (htag : tag ≠ 1)
    (hf : ∀ i, (f i).encode = .ok (Bytes.tagged tag [i])) :
    Consumes (do return f (← Reader.u16)) fun c back => c.StoredAs (tag :: back) := by
  refine Consumes.u16.map fun i bytes hi => .other htag ?_
  rw [hf, Bytes.tagged, List.flatMap_singleton, hi]

theorem consumes_indices {f : UInt16 → UInt16 → Constant} {tag : UInt8} (htag : tag ≠ 1)
    (hf : ∀ a b, (f a b).encode = .ok (Bytes.tagged tag [a, b])) :
    Consumes (do return f (← Reader.u16) (← Reader.u16))
      fun c back => c.StoredAs (tag :: back) := by
  refine Consumes.u16.bind fun a front ha => Consumes.u16.map fun b back hb => .other htag ?_
  rw [hf, Bytes.tagged, List.flatMap_cons, List.flatMap_singleton, ha, hb]

/-- Every record is the file form of the entry that it is read as, or holds its text. -/
theorem read_consumes : Consumes read StoredAs := by
  refine Consumes.u8.bind fun tag front htag => ?_
  subst htag
  simp only [List.singleton_append]
  split
  · refine Consumes.u16.bind fun length front hlength => (Consumes.take _).map ?_
    rintro payload _ ⟨hbytes, hpayload⟩
    have hlt := length.toNat_lt
    have hsame : length = payload.length.toUInt16 := by
      apply UInt16.toNat_inj.mp
      rw [Bytes.toUInt16_toNat (by omega), hpayload]
    rw [hbytes, hlength, hsame]
    exact .text (by omega)
  · refine Consumes.u32.map fun v bytes hv => .other (by decide) ?_
    rw [hv]
    rfl
  · refine Consumes.u32.map fun v bytes hv => .other (by decide) ?_
    rw [hv]
    rfl
  · refine Consumes.u64.map fun v bytes hv => .other (by decide) ?_
    rw [hv]
    rfl
  · refine Consumes.u64.map fun v bytes hv => .other (by decide) ?_
    rw [hv]
    rfl
  · exact consumes_index (by decide) fun _ => rfl
  · exact consumes_index (by decide) fun _ => rfl
  · exact consumes_indices (by decide) fun _ _ => rfl
  · exact consumes_indices (by decide) fun _ _ => rfl
  · exact consumes_indices (by decide) fun _ _ => rfl
  · exact consumes_indices (by decide) fun _ _ => rfl
  · refine Consumes.u8.bind fun kind front hkind => Consumes.u16.map fun i bytes hi =>
      .other (by decide) ?_
    rw [hkind, hi]
    rfl
  · exact consumes_index (by decide) fun _ => rfl
  · exact consumes_indices (by decide) fun _ _ => rfl
  · exact consumes_indices (by decide) fun _ _ => rfl
  · exact consumes_index (by decide) fun _ => rfl
  · exact consumes_index (by decide) fun _ => rfl
  · exact .fail _

end Constant

namespace Pool

/-- A record of a pool, and the entry that it is read as. -/
structure Record where
  bytes : Bytes
  entry : Constant
  deriving DecidableEq

/-- Reads the records that fill the given number of slots. -/
def readRecords : (slots : Nat) → Reader (List Record)
  | 0 => pure []
  | slots + 1 => fun cursor =>
    match Constant.read cursor with
    | .error e cursor => .error e cursor
    | .ok entry next =>
      let record : Record := ⟨cursor.rest.take (next.position - cursor.position), entry⟩
      if entry.isWide then
        match slots with
        | 0 => Reader.fail .wideOverflow next
        | slots + 1 => (do return record :: (← readRecords slots)) next
      else (do return record :: (← readRecords slots)) next

/-- Reads a slot count and the records behind it. -/
def readStored : Reader (List Record) := do
  let count ← Reader.u16
  if count = 0 then Reader.fail .emptyPool
  else readRecords (count.toNat - 1)

/-- The pool with the entries of these records. -/
def ofRecords (records : List Record) : Pool :=
  (records.map Record.entry).foldl push empty

/-! ### Reading by records -/

/-- A record that is read fills the slots of its entry, and the others fill the rest. -/
theorem readRecords_step {slots : Nat} {c c' d : Cursor} {entry : Constant}
    {records : List Record} (hentry : Constant.read c = .ok entry d)
    (h : readRecords (slots + 1) c = .ok records c') :
    ∃ rest more, records = ⟨c.rest.take (d.position - c.position), entry⟩ :: more ∧
      entry.slots.length + rest = slots + 1 ∧ readRecords rest d = .ok more c' := by
  simp only [readRecords, hentry] at h
  unfold Constant.slots
  split at h
  · rename_i hwide
    rw [if_pos hwide]
    split at h
    · cases h
    · rename_i rest
      obtain ⟨more, d', hmore, h⟩ := bind_eq_ok.mp h
      cases h
      exact ⟨rest, more, rfl, by simp only [List.length_cons, List.length_nil]; omega, hmore⟩
  · rename_i hnarrow
    rw [if_neg hnarrow]
    obtain ⟨more, d', hmore, h⟩ := bind_eq_ok.mp h
    cases h
    exact ⟨slots, more, rfl, by simp only [List.length_cons, List.length_nil]; omega, hmore⟩

/-- The records lie one after the other, and their entries fill the slots. -/
theorem readRecords_consumes (slots : Nat) :
    Consumes (readRecords slots) fun records bytes =>
      bytes = (records.map Record.bytes).flatten ∧
        ((records.map Record.entry).flatMap Constant.slots).length = slots ∧
        ∀ r ∈ records, r.entry.StoredAs r.bytes := by
  induction slots using Nat.strongRecOn with
  | ind slots ih =>
    intro c records c' h
    cases slots with
    | zero =>
      cases h
      exact ⟨[], .refl c, rfl, rfl, fun r hr => absurd hr List.not_mem_nil⟩
    | succ slots =>
      cases hentry : Constant.read c with
      | error e d =>
        simp only [readRecords, hentry] at h
        cases h
      | ok entry d =>
        obtain ⟨rest, more, rfl, hrest, hmore⟩ := readRecords_step hentry h
        have hpos : 0 < entry.slots.length := by
          unfold Constant.slots
          split <;> exact Nat.succ_pos _
        obtain ⟨front, hfront, hstored⟩ := Constant.read_consumes _ _ _ hentry
        obtain ⟨_, hback, rfl, hlength, hall⟩ := ih rest (by omega) _ _ _ hmore
        rw [hfront.take_eq]
        refine ⟨_, hfront.trans hback, rfl, ?_, ?_⟩
        · rw [List.map_cons, List.flatMap_cons, List.length_append, hlength, hrest]
        · intro r hr
          rcases List.mem_cons.mp hr with rfl | hr
          · exact hstored
          · exact hall r hr

/-- Entries are read record by record and appended to the pool. -/
theorem readEntries_eq (slots : Nat) (p : Pool) : readEntries slots p =
    do return ((← readRecords slots).map Record.entry).foldl push p := by
  induction slots using Nat.strongRecOn generalizing p with
  | ind slots ih =>
    funext c
    cases slots with
    | zero => rfl
    | succ slots =>
      simp only [readEntries, readRecords, bind, EStateM.bind]
      cases Constant.read c with
      | error e d => rfl
      | ok entry d =>
        dsimp only
        split
        · cases slots with
          | zero => rfl
          | succ slots =>
            simp only [ih slots (by omega), bind, EStateM.bind]
            cases readRecords slots d <;> rfl
        · simp only [ih slots (by omega), bind, EStateM.bind]
          cases readRecords slots d <;> rfl

theorem foldl_push_entries (cs : List Constant) (p : Pool) :
    (cs.foldl push p).entries.toList = p.entries.toList ++ cs.flatMap Constant.slots := by
  induction cs generalizing p with
  | nil => simp
  | cons c cs ih => rw [List.foldl_cons, ih, push_entries, List.flatMap_cons, List.append_assoc]

theorem foldl_push_sound {cs : List Constant} (hcs : ∀ c ∈ cs, c ≠ .unusable) {p : Pool}
    (hp : p.Sound) : (cs.foldl push p).Sound := by
  induction cs generalizing p with
  | nil => exact hp
  | cons c cs ih =>
    exact ih (fun x hx => hcs x (List.mem_cons_of_mem _ hx)) (hp.push (hcs c List.mem_cons_self))

theorem ofRecords_entries (records : List Record) :
    (ofRecords records).entries.toList =
      .unusable :: (records.map Record.entry).flatMap Constant.slots := by
  rw [ofRecords, foldl_push_entries]
  rfl

theorem ofRecords_slotCount (records : List Record) :
    (ofRecords records).slotCount =
      ((records.map Record.entry).flatMap Constant.slots).length + 1 := by
  rw [slotCount, ← Array.length_toList, ofRecords_entries, List.length_cons]

theorem ofRecords_sound {records : List Record} (h : ∀ r ∈ records, r.entry ≠ .unusable) :
    (ofRecords records).Sound := by
  refine foldl_push_sound ?_ empty_sound
  intro c hc
  obtain ⟨r, hr, rfl⟩ := List.mem_map.mp hc
  exact h r hr

/-- A pool is read record by record. -/
theorem read_eq : read = do return ofRecords (← readStored) := by
  simp only [read, readStored, bind_assoc]
  congr 1
  funext count
  split
  · rfl
  · exact readEntries_eq _ _

theorem read_records {c c' : Cursor} {p : Pool} (h : read c = .ok p c') :
    ∃ records, readStored c = .ok records c' ∧ p = ofRecords records := by
  rw [read_eq] at h
  obtain ⟨records, d, hrecords, h⟩ := bind_eq_ok.mp h
  cases h
  exact ⟨records, hrecords, rfl⟩

theorem readStored_consumes : Consumes readStored fun records bytes =>
    bytes = Bytes.ofUInt16 (ofRecords records).slotCount.toUInt16 ++
        (records.map Record.bytes).flatten ∧
      (ofRecords records).slotCount < 65536 ∧ ∀ r ∈ records, r.entry.StoredAs r.bytes := by
  refine Consumes.u16.bind fun count front hfront => ?_
  split
  · exact .fail _
  · rename_i hpos
    refine (readRecords_consumes _).imp ?_
    rintro records bytes ⟨hbytes, hlength, hstored⟩
    have hlt := count.toNat_lt
    have hcount : (ofRecords records).slotCount = count.toNat := by
      have hne : count.toNat ≠ 0 := fun h => hpos (UInt16.toNat_inj.mp h)
      rw [ofRecords_slotCount, hlength]
      omega
    have hsame : count = (ofRecords records).slotCount.toUInt16 := by
      rw [hcount]
      exact UInt16.ofNat_toNat.symm
    refine ⟨?_, by omega, hstored⟩
    rw [hbytes, hfront, ← hsame]

/-- A record fills the slots of its entry, and what follows fills the rest. -/
theorem reads_record {r : Record} (h : Reads Constant.read r.bytes r.entry) {slots : Nat}
    {rest : Bytes} {more : List Record} (hmore : Reads (readRecords slots) rest more) :
    Reads (readRecords (r.entry.slots.length + slots)) (r.bytes ++ rest) (r :: more) := by
  intro label after position
  have hentry := h label (rest ++ after) position
  have htail := hmore label after (position + r.bytes.length)
  have hbytes : (r.bytes ++ (rest ++ after)).take (position + r.bytes.length - position) =
      r.bytes := by
    rw [Nat.add_sub_cancel_left, List.take_left]
  rw [List.append_assoc, List.length_append, ← Nat.add_assoc]
  unfold Constant.slots
  by_cases hwide : r.entry.isWide = true
  · rw [if_pos hwide, List.length_cons, List.length_singleton,
      show 1 + 1 + slots = slots + 1 + 1 by omega]
    simp only [readRecords, hentry, hwide, if_true, hbytes]
    rw [bind_ok htail]
    rfl
  · rw [if_neg hwide, List.length_singleton, Nat.add_comm]
    simp only [readRecords, hentry, hwide, Bool.false_eq_true, if_false, hbytes]
    rw [bind_ok htail]
    rfl

/-- Records that were written for entries are read back with these. -/
theorem reads_stored {records : List Record} (hcount : (ofRecords records).slotCount < 65536)
    (h : ∀ r ∈ records, r.entry ≠ .unusable ∧ r.entry.encode = .ok r.bytes) :
    Reads readStored (Bytes.ofUInt16 (ofRecords records).slotCount.toUInt16 ++
      (records.map Record.bytes).flatten) records := by
  have hrecords : Reads (readRecords ((records.map Record.entry).flatMap Constant.slots).length)
      (records.map Record.bytes).flatten records := by
    clear hcount
    induction records with
    | nil => exact .pure _
    | cons r records ih =>
      obtain ⟨hne, hencode⟩ := h r List.mem_cons_self
      have hrest := ih fun r' hr' => h r' (List.mem_cons_of_mem _ hr')
      rw [List.map_cons, List.flatMap_cons, List.length_append]
      exact reads_record (Constant.reads_encode hne hencode) hrest
  have hslots : (ofRecords records).slotCount.toUInt16.toNat =
      ((records.map Record.entry).flatMap Constant.slots).length + 1 := by
    rw [Bytes.toUInt16_toNat hcount, ofRecords_slotCount]
  refine (Reads.u16 _).bind ?_
  rw [if_neg (by rw [← UInt16.toNat_inj, hslots]; simp), hslots, Nat.add_sub_cancel]
  exact hrecords

/-! ### Writing by records -/

theorem mapM_slots_ok {c : Constant} {bytes : Bytes} (h : c.encode = .ok bytes) :
    ∃ pieces, c.slots.mapM Constant.encode = .ok pieces ∧ pieces.flatten = bytes := by
  unfold Constant.slots
  split
  · exact ⟨[bytes, []], mapM_eq_ok.mpr (.cons h (.cons rfl .nil)), by simp⟩
  · exact ⟨[bytes], mapM_eq_ok.mpr (.cons h .nil), by simp⟩

theorem mapM_entries_ok {records : List Record} {written : List Bytes}
    (h : List.Forall₂ (fun r bytes => r.entry.encode = .ok bytes) records written) :
    ∃ pieces, ((records.map Record.entry).flatMap Constant.slots).mapM Constant.encode =
      .ok pieces ∧ pieces.flatten = written.flatten := by
  induction h with
  | nil => exact ⟨[], rfl, rfl⟩
  | cons hr _ ih =>
    obtain ⟨front, hfront, hfrontBytes⟩ := mapM_slots_ok hr
    obtain ⟨back, hback, hbackBytes⟩ := ih
    refine ⟨front ++ back, ?_, ?_⟩
    · rw [List.map_cons, List.flatMap_cons]
      exact mapM_eq_ok.mpr (List.rel_append (mapM_eq_ok.mp hfront) (mapM_eq_ok.mp hback))
    · rw [List.flatten_append, hfrontBytes, hbackBytes, List.flatten_cons]

/-- A pool is written record by record. -/
theorem encode_ofRecords {records : List Record} {written : List Bytes}
    (hcount : (ofRecords records).slotCount < 65536)
    (h : List.Forall₂ (fun r bytes => r.entry.encode = .ok bytes) records written) :
    (ofRecords records).encode =
      .ok (Bytes.ofUInt16 (ofRecords records).slotCount.toUInt16 ++ written.flatten) := by
  obtain ⟨pieces, hpieces, hflatten⟩ := mapM_entries_ok h
  have hall : (ofRecords records).entries.toList.mapM Constant.encode = .ok ([] :: pieces) := by
    rw [ofRecords_entries]
    exact mapM_eq_ok.mpr (.cons rfl (mapM_eq_ok.mp hpieces))
  rw [encode, if_pos hcount, hall]
  simp only [List.flatten_cons, List.nil_append, hflatten]

end Pool

end ClassAtlas
