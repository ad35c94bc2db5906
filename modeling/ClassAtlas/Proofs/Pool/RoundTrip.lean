import ClassAtlas.Proofs.Pool.Records

/-!
Pools come back from their file form, slot by slot.
-/

namespace ClassAtlas

open Reader

namespace Pool

/-- Entries that can be written have records. -/
theorem exists_records {cs : List Constant} (h : ∀ c ∈ cs, ∃ bytes, c.encode = .ok bytes) :
    ∃ records : List Record, records.map Record.entry = cs ∧
      ∀ r ∈ records, r.entry.encode = .ok r.bytes := by
  induction cs with
  | nil => exact ⟨[], rfl, fun r hr => absurd hr List.not_mem_nil⟩
  | cons c cs ih =>
    obtain ⟨bytes, hbytes⟩ := h c List.mem_cons_self
    obtain ⟨records, hentries, hrecords⟩ := ih fun x hx => h x (List.mem_cons_of_mem _ hx)
    refine ⟨⟨bytes, c⟩ :: records, by rw [List.map_cons, hentries], ?_⟩
    intro r hr
    rcases List.mem_cons.mp hr with rfl | hr
    · exact hbytes
    · exact hrecords r hr

/-- In a pool that has a file form every entry has one. -/
theorem encode_entry {p : Pool} {bytes : Bytes} (h : p.encode = .ok bytes) :
    p.slotCount < 65536 ∧ ∀ c ∈ p.entries.toList, ∃ record, c.encode = .ok record := by
  unfold encode at h
  split at h
  · rename_i hcount
    split at h
    · rename_i pieces hpieces
      refine ⟨hcount, fun c hc => ?_⟩
      obtain ⟨record, _, hrecord⟩ := mem_of_forall₂ (mapM_eq_ok.mp hpieces).flip hc
      exact ⟨record, hrecord⟩
    · cases h
  · cases h

theorem encode_congr {p q : Pool} (h : p.entries = q.entries) : p.encode = q.encode := by
  obtain ⟨entries, index⟩ := p
  cases h
  rfl

/-- A pool that has a file form is read back from it with the same slots. -/
theorem reads_encode {p : Pool} {bytes : Bytes} (hp : p.Sound) (h : p.encode = .ok bytes) :
    p.slotCount < 65536 ∧ ∃ q, q.entries = p.entries ∧ Reads read bytes q := by
  obtain ⟨cs, hcs, hentries⟩ := hp.laidOut
  obtain ⟨hcount, hall⟩ := encode_entry h
  have hmem : ∀ c ∈ cs, c ∈ p.entries.toList := by
    intro c hc
    rw [hentries]
    refine List.mem_cons_of_mem _ (List.mem_flatMap.mpr ⟨c, hc, ?_⟩)
    unfold Constant.slots
    split <;> exact List.mem_cons_self
  obtain ⟨records, rfl, hrecords⟩ := exists_records fun c hc => hall c (hmem c hc)
  have hsame : (ofRecords records).entries = p.entries := by
    rw [← Array.toList_inj, ofRecords_entries, hentries]
  have hslots : (ofRecords records).slotCount < 65536 := by
    rw [slotCount, hsame]
    exact hcount
  have hforms : List.Forall₂ (fun (r : Record) bytes => r.entry.encode = .ok bytes) records
      (records.map Record.bytes) := by
    rw [List.forall₂_map_right_iff, List.forall₂_same]
    exact hrecords
  rw [← encode_congr hsame, encode_ofRecords hslots hforms] at h
  cases h
  refine ⟨hcount, ofRecords records, hsame, ?_⟩
  rw [read_eq]
  refine (reads_stored hslots fun r hr => ⟨?_, hrecords r hr⟩).map ofRecords
  exact hcs r.entry (List.mem_map_of_mem hr)

/-! ### Pools that can be built -/

/-- A pool that was started empty or read, and then grew by interning. -/
inductive Reachable : Pool → Prop
  | empty : Reachable empty
  | read {c c' : Cursor} {p : Pool} (h : Pool.read c = .ok p c') : Reachable p
  | intern {p : Pool} {c : Constant} (hp : Reachable p) (hc : c ≠ .unusable) :
    Reachable (p.intern c).2

/-- Every pool that can be built is sound. -/
theorem Reachable.sound {p : Pool} (hp : p.Reachable) : p.Sound := by
  induction hp with
  | empty => exact empty_sound
  | read h =>
    obtain ⟨records, hrecords, rfl⟩ := read_records h
    obtain ⟨_, _, _, _, hstored⟩ := readStored_consumes _ _ _ hrecords
    exact ofRecords_sound fun r hr => (hstored r hr).ne_unusable
  | intern _ hc ih => exact (intern_spec ih hc rfl).sound

end Pool

end ClassAtlas
