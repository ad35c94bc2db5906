import ClassAtlas.Proofs.Bytes.Numbers
import ClassAtlas.Proofs.Text.ModifiedUtf8

/-!
Which sequences of UTF-16 units survive being read as a text and written again. A half of a
surrogate pair that stands without the other half has no place in a text: it is read as the
replacement character and written as such.
-/

namespace ClassAtlas.ModifiedUtf8

/-- The canonical form of a unit: one byte for 1 to 0x7F, two for zero and for 0x80 to 0x7FF, three
for all others, with six bits of the unit in every byte but the first. -/
def canonicalUnit (u : UInt16) : List UInt8 :=
  let n := u.toNat
  if 1 ≤ n ∧ n ≤ 0x7F then [n.toUInt8]
  else if n ≤ 0x7FF then [(0xC0 + n / 64).toUInt8, (0x80 + n % 64).toUInt8]
  else [(0xE0 + n / 4096).toUInt8, (0x80 + n / 64 % 64).toUInt8, (0x80 + n % 64).toUInt8]

/-- The canonical form of a sequence of units, whatever surrogates are among them. -/
def canonical (us : List UInt16) : List UInt8 :=
  us.flatMap canonicalUnit

/-- Every half of a surrogate pair stands beside its other half, the high one first. -/
inductive Paired : List UInt16 → Prop
  | nil : Paired []
  | single {u : UInt16} {us : List UInt16} (hu : u < 0xD800 ∨ 0xDFFF < u) (hus : Paired us) :
    Paired (u :: us)
  | pair {u v : UInt16} {us : List UInt16} (hu : 0xD800 ≤ u ∧ u ≤ 0xDBFF)
    (hv : 0xDC00 ≤ v ∧ v ≤ 0xDFFF) (hus : Paired us) : Paired (u :: v :: us)

/-- What a unit is read as that pairs with nothing. -/
def aloneUnit (u : UInt16) : UInt16 :=
  if isHigh u || isLow u then 0xFFFD else u

/-- The units with every surrogate replaced that stands without its other half. -/
def repaired : List UInt16 → List UInt16
  | [] => []
  | [u] => [aloneUnit u]
  | u :: v :: us =>
    if isHigh u && isLow v then u :: v :: repaired us else aloneUnit u :: repaired (v :: us)

theorem eq_toUInt8 {a : UInt8} {n : Nat} (h : a.toNat = n) : a = n.toUInt8 := by
  rw [← h]
  exact UInt8.ofNat_toNat.symm

/-- Units are written in their canonical form. -/
theorem encodeUnit_eq (u : UInt16) : encodeUnit u = canonicalUnit u := by
  unfold canonicalUnit
  rcases encodeUnit_cases u with ⟨hpos, hlt, a, h, ha⟩ | ⟨hone, hlt, a, b, h, ha, hb⟩ |
    ⟨hge, a, b, c, h, ha, hb, hc⟩
  · rw [h, if_pos ⟨hpos, by omega⟩, ← eq_toUInt8 ha]
  · rw [h, if_neg (by omega), if_pos (by omega), ← eq_toUInt8 ha, ← eq_toUInt8 hb]
  · rw [h, if_neg (by omega), if_neg (by omega), ← eq_toUInt8 ha, ← eq_toUInt8 hb, ← eq_toUInt8 hc]

theorem canonical_eq (us : List UInt16) : canonical us = us.flatMap encodeUnit := by
  rw [canonical, funext encodeUnit_eq]

theorem canonical_injective {us vs : List UInt16} (h : canonical us = canonical vs) : us = vs := by
  rw [canonical_eq, canonical_eq] at h
  rw [← unitsFrom_encode us, h, unitsFrom_encode]

/-! ### Units of what was read -/

theorem high_range {u : UInt16} : isHigh u = true ↔ 0xD800 ≤ u ∧ u ≤ 0xDBFF := by
  rw [isHigh_iff, UInt16.le_iff_toNat_le, UInt16.le_iff_toNat_le]
  change _ ↔ 0xD800 ≤ u.toNat ∧ u.toNat ≤ 0xDBFF
  omega

theorem low_range {u : UInt16} : isLow u = true ↔ 0xDC00 ≤ u ∧ u ≤ 0xDFFF := by
  rw [isLow_iff, UInt16.le_iff_toNat_le, UInt16.le_iff_toNat_le]
  change _ ↔ 0xDC00 ≤ u.toNat ∧ u.toNat ≤ 0xDFFF
  omega

theorem plain_range {u : UInt16} :
    (isHigh u || isLow u) = false ↔ u < 0xD800 ∨ 0xDFFF < u := by
  have hu := u.toNat_lt
  rw [← Bool.not_eq_true, Bool.or_eq_true, isHigh_iff, isLow_iff, UInt16.lt_iff_toNat_lt,
    UInt16.lt_iff_toNat_lt]
  change _ ↔ u.toNat < 0xD800 ∨ 0xDFFF < u.toNat
  omega

theorem alone_of_not_pair {u v : UInt16} {us : List UInt16} (h : ¬ (isHigh u && isLow v) = true) :
    isHigh u = true → ∀ w ∈ (v :: us).head?, isLow w = false := by
  intro hu w hw
  cases hw
  rw [hu, Bool.true_and, Bool.not_eq_true] at h
  exact h

/-- A pair of units is read as a character that has them as its units. -/
theorem charUnits_pairChar {u v : UInt16} (hu : isHigh u = true) (hv : isLow v = true) :
    charUnits (pairChar u v) = [u, v] := by
  rw [isHigh_iff] at hu
  rw [isLow_iff] at hv
  have hchar : (pairChar u v).toNat = 0x10000 + u.toNat % 1024 * 1024 + v.toNat % 1024 := by
    rw [pairChar, lowTen_toNat, lowTen_toNat]
    exact toNat_ofNat (.inr (by omega))
  have hge : ¬ (pairChar u v).toNat < 0x10000 := by omega
  have hhigh : (0xD800 + ((pairChar u v).toNat - 0x10000) / 1024).toUInt16 = u := by
    apply UInt16.toNat_inj.mp
    rw [Bytes.toUInt16_toNat (by omega)]
    omega
  have hlow : (0xDC00 + ((pairChar u v).toNat - 0x10000) % 1024).toUInt16 = v := by
    apply UInt16.toNat_inj.mp
    rw [Bytes.toUInt16_toNat (by omega)]
    omega
  rw [charUnits, if_neg hge, hhigh, hlow]

/-- A unit that is read on its own comes back, unless it is half of a pair. -/
theorem charUnits_unitChar (u : UInt16) : charUnits (unitChar u) = [aloneUnit u] := by
  rw [unitChar, aloneUnit]
  split
  · decide
  · rename_i h
    have hrange := plain_range.mp (Bool.not_eq_true _ ▸ h)
    rw [UInt16.lt_iff_toNat_lt, UInt16.lt_iff_toNat_lt] at hrange
    have hu := u.toNat_lt
    have hchar : (Char.ofNat u.toNat).toNat = u.toNat := by
      refine toNat_ofNat ?_
      rcases hrange with hlt | hgt
      · exact .inl hlt
      · exact .inr ⟨hgt, by omega⟩
    rw [charUnits, hchar, if_pos hu]
    exact congrArg (fun w => [w]) UInt16.ofNat_toNat

theorem units_ofUnits (us : List UInt16) : units (ofUnits us) = repaired us := by
  rw [units, ofUnits, String.toList_ofList]
  fun_induction repaired us with
  | case1 => rfl
  | case2 u =>
    have halone : isHigh u = true → ∀ v ∈ [].head?, isLow v = false := by
      intro _ v hv
      cases hv
    rw [charsFrom_alone halone, List.flatMap_cons, charUnits_unitChar]
    rfl
  | case3 u v us h ih =>
    obtain ⟨hu, hv⟩ := Bool.and_eq_true_iff.mp h
    rw [charsFrom_pair hu hv, List.flatMap_cons, charUnits_pairChar hu hv, ih]
    rfl
  | case4 u v us h ih =>
    rw [charsFrom_alone (alone_of_not_pair h), List.flatMap_cons, charUnits_unitChar, ih]
    rfl

/-- A canonical form is written as the canonical form of what is left of its units. -/
theorem encode_decode_canonical (us : List UInt16) :
    encode (decode (canonical us)) = canonical (repaired us) := by
  rw [canonical_eq us, decode_units, encode, units_ofUnits, ← canonical_eq]

/-! ### What is left of the units -/

theorem aloneUnit_eq_iff (u : UInt16) : aloneUnit u = u ↔ u < 0xD800 ∨ 0xDFFF < u := by
  rw [← plain_range, aloneUnit]
  constructor
  · intro h
    -- a surrogate is not the unit of the replacement character
    by_contra hhalf
    rw [Bool.not_eq_false] at hhalf
    rw [if_pos hhalf] at h
    rw [← h] at hhalf
    exact absurd hhalf (by decide)
  · intro h
    rw [if_neg (by rw [h]; exact Bool.false_ne_true)]

theorem Paired.pair_iff {u v : UInt16} {us : List UInt16} (hu : isHigh u = true)
    (hv : isLow v = true) : Paired (u :: v :: us) ↔ Paired us := by
  constructor
  · intro h
    cases h with
    | single hplain _ =>
      rw [← plain_range, hu] at hplain
      cases hplain
    | pair _ _ hus => exact hus
  · exact .pair (high_range.mp hu) (low_range.mp hv)

theorem Paired.alone_iff {u : UInt16} {us : List UInt16}
    (halone : isHigh u = true → ∀ v ∈ us.head?, isLow v = false) :
    Paired (u :: us) ↔ (u < 0xD800 ∨ 0xDFFF < u) ∧ Paired us := by
  constructor
  · intro h
    cases h with
    | single hplain hus => exact ⟨hplain, hus⟩
    | @pair _ v _ hu hv _ =>
      have hlow := halone (high_range.mpr hu) v rfl
      rw [low_range.mpr hv] at hlow
      cases hlow
  · rintro ⟨hplain, hus⟩
    exact .single hplain hus

/-- Nothing is replaced exactly if all surrogates are paired. -/
theorem repaired_eq_iff (us : List UInt16) : repaired us = us ↔ Paired us := by
  fun_induction repaired us with
  | case1 => exact iff_of_true rfl .nil
  | case2 u =>
    have halone : isHigh u = true → ∀ v ∈ [].head?, isLow v = false := by
      intro _ v hv
      cases hv
    rw [Paired.alone_iff halone, List.cons.injEq, aloneUnit_eq_iff]
    exact and_congr_right fun _ => iff_of_true rfl .nil
  | case3 u v us h ih =>
    obtain ⟨hu, hv⟩ := Bool.and_eq_true_iff.mp h
    rw [List.cons_inj_right, List.cons_inj_right, ih, Paired.pair_iff hu hv]
  | case4 u v us h ih =>
    rw [Paired.alone_iff (alone_of_not_pair h), List.cons.injEq, aloneUnit_eq_iff, ih]

theorem encode_decode_canonical_iff (us : List UInt16) :
    encode (decode (canonical us)) = canonical us ↔ Paired us := by
  rw [encode_decode_canonical, ← repaired_eq_iff]
  exact ⟨fun h => canonical_injective h, fun h => by rw [h]⟩

/-- The replacement takes as many bytes as the surrogate that it replaces. -/
theorem canonicalUnit_alone_length (u : UInt16) :
    (canonicalUnit (aloneUnit u)).length = (canonicalUnit u).length := by
  rw [aloneUnit]
  split
  · rename_i hhalf
    have hlong : 0x7FF < u.toNat := by
      rcases Bool.or_eq_true_iff.mp hhalf with h | h
      · rw [isHigh_iff] at h
        omega
      · rw [isLow_iff] at h
        omega
    rw [canonicalUnit, canonicalUnit, if_neg (by decide), if_neg (by decide), if_neg (by omega),
      if_neg (by omega)]
    rfl
  · rfl

theorem canonical_repaired_length (us : List UInt16) :
    (canonical (repaired us)).length = (canonical us).length := by
  unfold canonical
  fun_induction repaired us with
  | case1 => rfl
  | case2 u => simp only [List.flatMap_cons, List.length_append, canonicalUnit_alone_length]
  | case3 u v us h ih => simp only [List.flatMap_cons, List.length_append, ih]
  | case4 u v us h ih =>
    simp only [List.flatMap_cons, List.length_append, canonicalUnit_alone_length] at ih ⊢
    rw [ih]

end ClassAtlas.ModifiedUtf8
