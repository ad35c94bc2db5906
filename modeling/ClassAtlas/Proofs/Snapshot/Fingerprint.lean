import ClassAtlas.Proofs.Steps
import ClassAtlas.Proofs.Text.Utf8
import ClassAtlas.Snapshot.Archive

/-!
The fingerprint of a collection tells its content. The order by name leaves one list for each set of
units, and the bytes of that list can be parted in one way only: a name ends before the first zero,
and the hash behind it, which may have any bytes, has a known length.
-/

namespace ClassAtlas.Snapshot

/-- The part of a unit that the fingerprint of a collection is made of. -/
def mark (u : ClassUnit) : String × Bytes :=
  (u.name, u.fingerprint)

/-- Units with names of their own, in which there is no zero character. -/
structure WellNamed (units : List ClassUnit) : Prop where
  distinct : (units.map ClassUnit.name).Nodup
  zeroFree : ∀ u ∈ units, '\x00' ∉ u.name.toList

/-- No two of the inputs have the same hash. -/
def NoCollision (inputs : List Bytes) : Prop :=
  ∀ a ∈ inputs, ∀ b ∈ inputs, Blake3.hash a = Blake3.hash b → a = b

/-- All that is hashed for the fingerprint of a collection. -/
def hashed (units : List ClassUnit) : List Bytes :=
  fingerprintInput units :: units.map ClassUnit.bytes

variable {us vs : List ClassUnit}

/-! ### One list for each set -/

theorem sorted_pairwise (units : List ClassUnit) :
    (sorted units).Pairwise fun u v => u.name ≤ v.name := by
  have htrans (u v w : ClassUnit) (huv : decide (u.name ≤ v.name) = true)
      (hvw : decide (v.name ≤ w.name) = true) : decide (u.name ≤ w.name) = true :=
    decide_eq_true (String.le_trans (of_decide_eq_true huv) (of_decide_eq_true hvw))
  have htotal (u v : ClassUnit) : (decide (u.name ≤ v.name) || decide (v.name ≤ u.name)) = true := by
    rw [Bool.or_eq_true, decide_eq_true_eq, decide_eq_true_eq]
    exact String.le_total u.name v.name
  have hsorted := List.pairwise_mergeSort htrans htotal units
  exact hsorted.imp of_decide_eq_true

theorem map_mark_fst (units : List ClassUnit) :
    (units.map mark).map Prod.fst = units.map ClassUnit.name := by
  rw [List.map_map]
  rfl

theorem map_mark_sorted_inj (hus : WellNamed us) (hvs : WellNamed vs) :
    (sorted us).map mark = (sorted vs).map mark ↔ ∀ p, p ∈ us.map mark ↔ p ∈ vs.map mark := by
  have hperm (units : List ClassUnit) : ((sorted units).map mark).Perm (units.map mark) :=
    (sorted_perm units).map mark
  have hordered (units : List ClassUnit) : ((sorted units).map mark).Pairwise (·.1 ≤ ·.1) :=
    List.pairwise_map.mpr (sorted_pairwise units)
  constructor
  · intro hsame p
    rw [← (hperm us).mem_iff, hsame, (hperm vs).mem_iff]
  · intro hsame
    have hnames : ((us.map mark).map Prod.fst).Nodup := map_mark_fst us ▸ hus.distinct
    have hnames' : ((vs.map mark).map Prod.fst).Nodup := map_mark_fst vs ▸ hvs.distinct
    have hmarks : (us.map mark).Perm (vs.map mark) :=
      (List.perm_ext_iff_of_nodup hnames.of_map hnames'.of_map).mpr hsame
    refine List.Perm.eq_of_pairwise ?_ (hordered us) (hordered vs)
      ((hperm us).trans (hmarks.trans (hperm vs).symm))
    -- the order is one of names, which stand for their marks
    intro p q hp hq hpq hqp
    have hq' := (hsame q).mpr ((hperm vs).mem_iff.mp hq)
    exact List.inj_on_of_nodup_map hnames ((hperm us).mem_iff.mp hp) hq'
      (String.le_antisymm hpq hqp)

/-! ### One list for each byte string -/

theorem unitRecord_ne_nil (u : ClassUnit) : unitRecord u ≠ [] := by
  simp [unitRecord]

/-- A record ends where its hash does. -/
theorem unitRecord_append_inj {u v : ClassUnit} (hu : '\x00' ∉ u.name.toList)
    (hv : '\x00' ∉ v.name.toList) {back back' : Bytes}
    (h : unitRecord u ++ back = unitRecord v ++ back') : mark u = mark v ∧ back = back' := by
  rw [unitRecord, unitRecord, List.append_assoc, List.append_assoc, List.cons_append,
    List.cons_append] at h
  obtain ⟨hname, hrest⟩ := eq_of_first (Utf8.zero_notMem_encode hu) (Utf8.zero_notMem_encode hv) h
  have hlength : u.fingerprint.length = v.fingerprint.length :=
    (Blake3.hash_length u.bytes).trans (Blake3.hash_length v.bytes).symm
  obtain ⟨hprint, hback⟩ := List.append_inj hrest hlength
  exact ⟨Prod.ext (Utf8.encode_injective hname) hprint, hback⟩

theorem flatMap_unitRecord_inj (hus : ∀ u ∈ us, '\x00' ∉ u.name.toList)
    (hvs : ∀ v ∈ vs, '\x00' ∉ v.name.toList) :
    us.flatMap unitRecord = vs.flatMap unitRecord ↔ us.map mark = vs.map mark := by
  constructor
  · intro h
    -- on the units of the first list: each time the first records of both are the same
    induction us generalizing vs with
    | nil =>
      cases vs with
      | nil => rfl
      | cons v vs => exact absurd (List.append_eq_nil_iff.mp h.symm).1 (unitRecord_ne_nil v)
    | cons u us ih =>
      cases vs with
      | nil => exact absurd (List.append_eq_nil_iff.mp h).1 (unitRecord_ne_nil u)
      | cons v vs =>
        rw [List.forall_mem_cons] at hus hvs
        obtain ⟨hmark, hback⟩ := unitRecord_append_inj hus.1 hvs.1 h
        rw [List.map_cons, List.map_cons, hmark, ih hus.2 hvs.2 hback]
  · intro h
    have hrecord (units : List ClassUnit) : units.flatMap unitRecord =
        (units.map mark).flatMap fun p => Utf8.encode p.1 ++ 0 :: p.2 := by
      rw [List.flatMap_map]
      rfl
    rw [hrecord, hrecord, h]

theorem fingerprintInput_inj (hus : WellNamed us) (hvs : WellNamed vs) :
    fingerprintInput us = fingerprintInput vs ↔ ∀ p, p ∈ us.map mark ↔ p ∈ vs.map mark := by
  have hzero {units : List ClassUnit} (h : WellNamed units) :
      ∀ u ∈ sorted units, '\x00' ∉ u.name.toList := fun u hu =>
    h.zeroFree u ((sorted_perm units).mem_iff.mp hu)
  rw [fingerprintInput, fingerprintInput, flatMap_unitRecord_inj (hzero hus) (hzero hvs)]
  exact map_mark_sorted_inj hus hvs

/-! ### Hashes that do not collide -/

theorem NoCollision.mark_inj {inputs : List Bytes} (h : NoCollision inputs) {u v : ClassUnit}
    (hu : u.bytes ∈ inputs) (hv : v.bytes ∈ inputs) (hmark : mark u = mark v) : u = v := by
  obtain ⟨hname, hprint⟩ := Prod.mk.inj hmark
  have hbytes : u.bytes = v.bytes := h u.bytes hu v.bytes hv hprint
  cases u
  cases v
  rw [ClassUnit.mk.injEq]
  exact ⟨hname, hbytes⟩

theorem NoCollision.mem_of_mark {inputs : List Bytes} (h : NoCollision inputs) {u : ClassUnit}
    (hu : u.bytes ∈ inputs) (hvs : ∀ v ∈ vs, v.bytes ∈ inputs) (hmark : mark u ∈ vs.map mark) :
    u ∈ vs := by
  obtain ⟨v, hv, hsame⟩ := List.mem_map.mp hmark
  rw [← h.mark_inj (hvs v hv) hu hsame]
  exact hv

theorem mem_map_mark_iff (h : NoCollision (hashed us ++ hashed vs)) :
    (∀ p, p ∈ us.map mark ↔ p ∈ vs.map mark) ↔ ∀ u, u ∈ us ↔ u ∈ vs := by
  have hus : ∀ u ∈ us, u.bytes ∈ hashed us ++ hashed vs := fun u hu =>
    List.mem_append_left _ (List.mem_cons_of_mem _ (List.mem_map_of_mem hu))
  have hvs : ∀ v ∈ vs, v.bytes ∈ hashed us ++ hashed vs := fun v hv =>
    List.mem_append_right _ (List.mem_cons_of_mem _ (List.mem_map_of_mem hv))
  constructor
  · intro hmarks u
    constructor
    · intro hu
      have hmark := (hmarks (mark u)).mp (List.mem_map_of_mem hu)
      exact h.mem_of_mark (hus u hu) hvs hmark
    · intro hv
      have hmark := (hmarks (mark u)).mpr (List.mem_map_of_mem hv)
      exact h.mem_of_mark (hvs u hv) hus hmark
  · intro hunits p
    simp only [List.mem_map, hunits]

/-- The bytes behind the fingerprints of two collections are the same exactly if the collections have
the same names and hashes, in whatever order they are given. The fingerprints are the same exactly if
the collections have the same units, unless two of the byte strings that are hashed for them collide. -/
theorem fingerprint_identifies (hus : WellNamed us) (hvs : WellNamed vs) :
    (fingerprintInput us = fingerprintInput vs ↔ ∀ p, p ∈ us.map mark ↔ p ∈ vs.map mark) ∧
    (us.Perm vs → fingerprint us = fingerprint vs) ∧
    (NoCollision (hashed us ++ hashed vs) →
      (fingerprint us = fingerprint vs ↔ ∀ u, u ∈ us ↔ u ∈ vs)) := by
  have hinput := fingerprintInput_inj hus hvs
  refine ⟨hinput, ?_, ?_⟩
  · intro hperm
    have hmarks : ∀ p, p ∈ us.map mark ↔ p ∈ vs.map mark := fun _ => (hperm.map mark).mem_iff
    exact congrArg Blake3.hash (hinput.mpr hmarks)
  · intro hhash
    have hfirst : fingerprintInput us ∈ hashed us ++ hashed vs :=
      List.mem_append_left _ List.mem_cons_self
    have hsecond : fingerprintInput vs ∈ hashed us ++ hashed vs :=
      List.mem_append_right _ List.mem_cons_self
    have hsame : fingerprint us = fingerprint vs ↔ fingerprintInput us = fingerprintInput vs :=
      ⟨hhash _ hfirst _ hsecond, congrArg Blake3.hash⟩
    exact hsame.trans (hinput.trans (mem_map_mark_iff hhash))

namespace Edited

def before : List ClassUnit := [⟨"b/B", [2]⟩, ⟨"a/A", [1]⟩]

def after : List ClassUnit := [⟨"a/A", [1]⟩, ⟨"b/B", [3]⟩]

theorem fingerprintInput_before : fingerprintInput before =
    unitRecord ⟨"a/A", [1]⟩ ++ unitRecord ⟨"b/B", [2]⟩ := by
  simp [fingerprintInput, sorted, before, List.mergeSort]

theorem fingerprintInput_after : fingerprintInput after =
    unitRecord ⟨"a/A", [1]⟩ ++ unitRecord ⟨"b/B", [3]⟩ := by
  simp [fingerprintInput, sorted, after, List.mergeSort]

theorem noCollision : NoCollision (hashed before ++ hashed after) := by
  -- the first bytes tell the hashes apart
  have hfirst : ([fingerprintInput before, fingerprintInput after, [1], [2], [3]].map
      fun a => (Blake3.hash a).head?) = [some 156, some 162, some 72, some 171, some 225] := by
    rw [fingerprintInput_before, fingerprintInput_after]
    decide +kernel
  have hnodup : ([fingerprintInput before, fingerprintInput after, [1], [2], [3]].map
      fun a => (Blake3.hash a).head?).Nodup := hfirst ▸ by decide
  have hmem : ∀ a ∈ hashed before ++ hashed after,
      a ∈ [fingerprintInput before, fingerprintInput after, [1], [2], [3]] := by
    simp [hashed, before, after]
  intro a ha b hb hsame
  exact List.inj_on_of_nodup_map hnodup (hmem a ha) (hmem b hb) (congrArg List.head? hsame)

/-- A changed unit shows in the fingerprint, and another order does not. -/
theorem edit_detected : WellNamed before ∧ WellNamed after ∧ WellNamed before.reverse ∧
    NoCollision (hashed before ++ hashed after) ∧
    fingerprintInput before ≠ fingerprintInput after ∧ fingerprint before ≠ fingerprint after ∧
    fingerprint before = fingerprint before.reverse := by
  have hbefore : WellNamed before := ⟨by decide, by decide⟩
  have hafter : WellNamed after := ⟨by decide, by decide⟩
  have hreverse : WellNamed before.reverse := ⟨by decide, by decide⟩
  obtain ⟨hinput, -, hprint⟩ := fingerprint_identifies hbefore hafter
  obtain ⟨-, horder, -⟩ := fingerprint_identifies hbefore hreverse
  have hedit : ¬ ∀ u, u ∈ before ↔ u ∈ after := fun h =>
    absurd ((h ⟨"b/B", [3]⟩).mpr (by decide)) (by decide)
  have hmarks := (mem_map_mark_iff noCollision).not.mpr hedit
  exact ⟨hbefore, hafter, hreverse, noCollision, hinput.not.mpr hmarks,
    (hprint noCollision).not.mpr hedit, horder before.reverse_perm.symm⟩

end Edited

end ClassAtlas.Snapshot
