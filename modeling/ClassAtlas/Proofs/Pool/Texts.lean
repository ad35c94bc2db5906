import ClassAtlas.Proofs.Pool.Records
import ClassAtlas.Proofs.Text.Surrogates

/-!
Texts in pools. A pool is written as it was read wherever a text is written with the bytes that it
was read from; for texts in canonical form this means that their surrogates are paired.
-/

namespace ClassAtlas

open Reader

namespace Constant

theorem textRecord_injective {payload other : Bytes} (h : textRecord payload = textRecord other) :
    payload = other := by
  have hdrop := congrArg (List.drop 3) h
  exact hdrop

theorem encode_utf8 {s : String} (h : (ModifiedUtf8.encode s).length < 65536) :
    (utf8 s).encode = .ok (textRecord (ModifiedUtf8.encode s)) := by
  simp only [encode, if_pos h, textRecord]

end Constant

namespace Pool

/-- The bytes of the text in a record, if it holds one. -/
def Record.payload? (r : Record) : Option Bytes :=
  match r.bytes with
  | 1 :: _ :: _ :: payload => some payload
  | _ => none

namespace Record

theorem payload?_text {r : Record} {payload : Bytes} (h : r.bytes = Constant.textRecord payload) :
    r.payload? = some payload := by
  rw [payload?, h]
  rfl

theorem payload?_other {r : Record} {tag : UInt8} {operands : Bytes} (htag : tag ≠ 1)
    (h : r.bytes = tag :: operands) : r.payload? = none := by
  rw [payload?, h]
  split
  · rename_i heq
    cases heq
    exact absurd rfl htag
  · rfl

/-- A record holds a text in some bytes, or it is the only form of its entry. -/
theorem cases_payload {r : Record} (h : r.entry.StoredAs r.bytes) :
    (∃ payload, r.payload? = some payload ∧ payload.length < 65536 ∧
      r.entry = .utf8 (ModifiedUtf8.decode payload) ∧ r.bytes = Constant.textRecord payload) ∨
    (r.payload? = none ∧ r.entry.encode = .ok r.bytes) := by
  generalize hentry : r.entry = entry at h
  generalize hbytes : r.bytes = bytes at h
  cases h with
  | text hlength => exact .inl ⟨_, payload?_text hbytes, hlength, rfl, rfl⟩
  | other htag hencode => exact .inr ⟨payload?_other htag hbytes, hencode⟩

/-- The text in the record is written with the bytes that it was read from. -/
def Kept (r : Record) : Prop :=
  ∀ payload, r.payload? = some payload →
    ModifiedUtf8.encode (ModifiedUtf8.decode payload) = payload

theorem encode_of_kept {r : Record} (h : r.entry.StoredAs r.bytes) (hkept : r.Kept) :
    r.entry.encode = .ok r.bytes := by
  rcases cases_payload h with ⟨payload, hpayload, hlength, hentry, hbytes⟩ | ⟨_, hencode⟩
  · have hsame := hkept payload hpayload
    rw [hentry, Constant.encode_utf8 (by rw [hsame]; exact hlength), hsame, hbytes]
  · exact hencode

theorem kept_of_encode {r : Record} (h : r.entry.encode = .ok r.bytes) : r.Kept := by
  obtain ⟨bytes, entry⟩ := r
  intro payload hpayload
  cases entry with
  | utf8 s =>
    simp only [Constant.encode] at h
    split at h
    · cases h
      cases hpayload
      exact congrArg ModifiedUtf8.encode (ModifiedUtf8.decode_encode s)
    · cases h
  | _ =>
    cases h
    cases hpayload

/-- The record of a text that is stored in canonical form is written again exactly if all surrogates
of the text are paired. -/
theorem encode_canonical {r : Record} (h : r.entry.StoredAs r.bytes)
    (hcanonical : ∀ payload, r.payload? = some payload →
      ∃ us, payload = ModifiedUtf8.canonical us) :
    ∃ bytes, r.entry.encode = .ok bytes ∧ (bytes = r.bytes ↔
      ∀ us, r.payload? = some (ModifiedUtf8.canonical us) → ModifiedUtf8.Paired us) := by
  rcases cases_payload h with ⟨payload, hpayload, hlength, hentry, hbytes⟩ | ⟨hnone, hencode⟩
  · obtain ⟨us, rfl⟩ := hcanonical payload hpayload
    have hwritten := ModifiedUtf8.encode_decode_canonical us
    have hfits : (ModifiedUtf8.encode
        (ModifiedUtf8.decode (ModifiedUtf8.canonical us))).length < 65536 := by
      rw [hwritten, ModifiedUtf8.canonical_repaired_length]
      exact hlength
    refine ⟨_, by rw [hentry, Constant.encode_utf8 hfits], ?_⟩
    rw [hbytes, hpayload]
    constructor
    · intro hsame vs hvs
      cases ModifiedUtf8.canonical_injective (Option.some_inj.mp hvs)
      exact (ModifiedUtf8.encode_decode_canonical_iff us).mp (Constant.textRecord_injective hsame)
    · intro hpaired
      rw [(ModifiedUtf8.encode_decode_canonical_iff us).mpr (hpaired us rfl)]
  · refine ⟨_, hencode, iff_of_true rfl fun us hus => ?_⟩
    rw [hnone] at hus
    cases hus

end Record

/-- A pool all of whose texts are kept is written with the bytes that it was read from. -/
theorem encode_read {c c' : Cursor} {records : List Record} (h : readStored c = .ok records c')
    (hkept : ∀ r ∈ records, r.Kept) :
    ∃ bytes, c.Over bytes c' ∧ (ofRecords records).encode = .ok bytes := by
  obtain ⟨_, hover, rfl, hcount, hstored⟩ := readStored_consumes _ _ _ h
  refine ⟨_, hover, encode_ofRecords hcount ?_⟩
  rw [List.forall₂_map_right_iff, List.forall₂_same]
  intro r hr
  exact Record.encode_of_kept (hstored r hr) (hkept r hr)

/-- Canonical forms are written as they were read exactly if their surrogates are paired. In the
records of a pool this holds for each text on its own. -/
theorem canonical_texts_kept_iff (us : List UInt16) :
    (ModifiedUtf8.encode (ModifiedUtf8.decode (ModifiedUtf8.canonical us)) =
        ModifiedUtf8.canonical us ↔ ModifiedUtf8.Paired us) ∧
      ∀ c c' p, read c = .ok p c' → ∃ records, readStored c = .ok records c' ∧
        c.Over (Bytes.ofUInt16 p.slotCount.toUInt16 ++ (records.map Record.bytes).flatten) c' ∧
        ((∀ r ∈ records, ∀ payload, r.payload? = some payload →
            ∃ vs, payload = ModifiedUtf8.canonical vs) →
          ∃ written, p.encode = .ok (Bytes.ofUInt16 p.slotCount.toUInt16 ++ written.flatten) ∧
            List.Forall₂ (fun r bytes => bytes = r.bytes ↔
                ∀ vs, r.payload? = some (ModifiedUtf8.canonical vs) → ModifiedUtf8.Paired vs)
              records written) := by
  refine ⟨ModifiedUtf8.encode_decode_canonical_iff us, ?_⟩
  intro c c' p h
  obtain ⟨records, hrecords, rfl⟩ := read_records h
  obtain ⟨_, hover, rfl, hcount, hstored⟩ := readStored_consumes _ _ _ hrecords
  refine ⟨records, hrecords, hover, fun hcanonical => ?_⟩
  have hwritten : ∀ r ∈ records, ∃ bytes, r.entry.encode = .ok bytes ∧ (bytes = r.bytes ↔
      ∀ us, r.payload? = some (ModifiedUtf8.canonical us) → ModifiedUtf8.Paired us) :=
    fun r hr => Record.encode_canonical (hstored r hr) (hcanonical r hr)
  obtain ⟨written, hboth⟩ := exists_forall₂ hwritten
  refine ⟨written, encode_ofRecords hcount (hboth.imp fun _ _ hr => hr.1), ?_⟩
  exact hboth.imp fun _ _ hr => hr.2

/-- A text that is half of a surrogate pair, stored in its canonical form. -/
def halfPair : Record :=
  ⟨Constant.textRecord [0xED, 0xA0, 0x80], .utf8 (ModifiedUtf8.decode [0xED, 0xA0, 0x80])⟩

def halfPairPool : Cursor :=
  .start "" ([0, 2] ++ halfPair.bytes)

theorem readStored_halfPairPool : readStored halfPairPool = .ok [halfPair] ⟨"", [], 8⟩ := by
  have hcount : Reader.u16 halfPairPool = .ok 2 ⟨"", halfPair.bytes, 2⟩ := rfl
  have hentry : Constant.read ⟨"", halfPair.bytes, 2⟩ = .ok halfPair.entry ⟨"", [], 8⟩ := rfl
  have hnarrow : halfPair.entry.isWide = false := rfl
  rw [readStored, bind_ok hcount, if_neg (by decide)]
  simp only [UInt16.reduceToNat, Nat.reduceSub, readRecords, hentry, hnarrow]
  rfl

/-- The half of a pair does not come back. -/
theorem halfPair_not_kept :
    ModifiedUtf8.encode (ModifiedUtf8.decode (ModifiedUtf8.canonical [0xD800])) ≠
      ModifiedUtf8.canonical [0xD800] ∧
    read halfPairPool = .ok (ofRecords [halfPair]) ⟨"", [], 8⟩ ∧
    halfPair.payload? = some (ModifiedUtf8.canonical [0xD800]) ∧
    ∃ bytes, (ofRecords [halfPair]).encode = .ok ([0, 2] ++ bytes) ∧ bytes ≠ halfPair.bytes := by
  have hstored := readStored_halfPairPool
  have hread : read halfPairPool = .ok (ofRecords [halfPair]) ⟨"", [], 8⟩ := by
    rw [read_eq, bind_ok hstored]
    rfl
  have hpayload : halfPair.payload? = some (ModifiedUtf8.canonical [0xD800]) := by decide
  have hcanonical : ∀ r ∈ [halfPair], ∀ payload, r.payload? = some payload →
      ∃ us, payload = ModifiedUtf8.canonical us := by
    intro r hr payload hp
    cases List.mem_singleton.mp hr
    rw [hpayload] at hp
    exact ⟨[0xD800], (Option.some_inj.mp hp).symm⟩
  have hhalf : ¬ ModifiedUtf8.Paired [0xD800] := by
    intro h
    cases h with
    | single hplain _ => revert hplain; decide
  obtain ⟨hkept, hpools⟩ := canonical_texts_kept_iff [0xD800]
  obtain ⟨records, hrecords, _, hwritten⟩ := hpools _ _ _ hread
  rw [hstored] at hrecords
  cases hrecords
  obtain ⟨written, hencode, hall⟩ := hwritten hcanonical
  obtain ⟨bytes, _, hbytes, hnil, rfl⟩ := List.forall₂_cons_left_iff.mp hall
  cases hnil
  refine ⟨fun hsame => hhalf (hkept.mp hsame), hread, hpayload, bytes, ?_, fun hsame => ?_⟩
  · rw [hencode, List.flatten_singleton]
    rfl
  · exact hhalf (hbytes.mp hsame [0xD800] hpayload)

end Pool

end ClassAtlas
