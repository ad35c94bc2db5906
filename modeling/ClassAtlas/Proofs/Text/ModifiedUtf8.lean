import ClassAtlas.Text.ModifiedUtf8
import Mathlib

/-!
Modified UTF-8 is read back as it was written. Every sequence of UTF-16 units comes back from its
bytes, every text comes back from its units, and on the bytes that encoding can produce the short
way through plain UTF-8 gives what reading unit by unit gives.
-/

namespace ClassAtlas

theorem and_mask_toNat (a mask : UInt8) (n : Nat) (h : mask.toNat = 2 ^ n - 1) :
    (a &&& mask).toNat = a.toNat % 2 ^ n := by
  rw [UInt8.toNat_and, h]
  exact Nat.and_two_pow_sub_one_eq_mod _ n

theorem lowFour_toNat (a : UInt8) : (a &&& 0x0F).toNat = a.toNat % 16 :=
  and_mask_toNat a 0x0F 4 rfl

theorem lowFive_toNat (a : UInt8) : (a &&& 0x1F).toNat = a.toNat % 32 :=
  and_mask_toNat a 0x1F 5 rfl

theorem lowSix_toNat (a : UInt8) : (a &&& 0x3F).toNat = a.toNat % 64 :=
  and_mask_toNat a 0x3F 6 rfl

namespace ModifiedUtf8

/-! ### Bits of bytes and units -/

theorem single_iff (a : UInt8) : (a &&& 0x80 == 0) = decide (a.toNat < 128) := by
  have h : ∀ v : BitVec 8,
      (UInt8.ofBitVec v &&& 0x80 == 0) = decide ((UInt8.ofBitVec v).toNat < 128) := by decide
  exact h a.toBitVec

theorem double_iff (a : UInt8) : (a &&& 0xE0 == 0xC0) = decide (a.toNat / 32 = 6) := by
  have h : ∀ v : BitVec 8,
      (UInt8.ofBitVec v &&& 0xE0 == 0xC0) = decide ((UInt8.ofBitVec v).toNat / 32 = 6) := by decide
  exact h a.toBitVec

theorem triple_iff (a : UInt8) : (a &&& 0xF0 == 0xE0) = decide (a.toNat / 16 = 14) := by
  have h : ∀ v : BitVec 8,
      (UInt8.ofBitVec v &&& 0xF0 == 0xE0) = decide ((UInt8.ofBitVec v).toNat / 16 = 14) := by
    decide
  exact h a.toBitVec

theorem quadruple_iff (a : UInt8) : (a &&& 0xF8 == 0xF0) = decide (a.toNat / 8 = 30) := by
  have h : ∀ v : BitVec 8,
      (UInt8.ofBitVec v &&& 0xF8 == 0xF0) = decide ((UInt8.ofBitVec v).toNat / 8 = 30) := by decide
  exact h a.toBitVec

theorem doubleUnit_toNat (a b : UInt8) :
    (bits a 0x1F <<< 6 ||| bits b 0x3F).toNat = a.toNat % 32 * 64 + b.toNat % 64 := by
  have hlt : b.toNat % 64 < 2 ^ 6 := Nat.mod_lt _ (by decide)
  have h6 : UInt16.toNat 6 % 16 = 6 := rfl
  simp only [bits, UInt16.toNat_or, UInt16.toNat_shiftLeft, UInt8.toNat_toUInt16, lowFive_toNat,
    lowSix_toNat, h6]
  rw [Nat.mod_eq_of_lt (by rw [Nat.shiftLeft_eq]; omega), ← Nat.shiftLeft_add_eq_or_of_lt hlt,
    Nat.shiftLeft_eq]

theorem tripleUnit_toNat (a b c : UInt8) :
    (bits a 0x0F <<< 12 ||| bits b 0x3F <<< 6 ||| bits c 0x3F).toNat =
      a.toNat % 16 * 4096 + b.toNat % 64 * 64 + c.toNat % 64 := by
  have hlt : c.toNat % 64 < 2 ^ 6 := Nat.mod_lt _ (by decide)
  have hlt' : (b.toNat % 64) <<< 6 + c.toNat % 64 < 2 ^ 12 := by
    rw [Nat.shiftLeft_eq]
    omega
  have h6 : UInt16.toNat 6 % 16 = 6 := rfl
  have h12 : UInt16.toNat 12 % 16 = 12 := rfl
  simp only [bits, UInt16.toNat_or, UInt16.toNat_shiftLeft, UInt8.toNat_toUInt16, lowFour_toNat,
    lowSix_toNat, h6, h12]
  have ha' : (a.toNat % 16) <<< 12 % 2 ^ 16 = (a.toNat % 16) <<< 12 :=
    Nat.mod_eq_of_lt (by rw [Nat.shiftLeft_eq]; omega)
  have hb' : (b.toNat % 64) <<< 6 % 2 ^ 16 = (b.toNat % 64) <<< 6 :=
    Nat.mod_eq_of_lt (by rw [Nat.shiftLeft_eq]; omega)
  rw [ha', hb', Nat.or_assoc, ← Nat.shiftLeft_add_eq_or_of_lt hlt,
    ← Nat.shiftLeft_add_eq_or_of_lt hlt', Nat.shiftLeft_eq, Nat.shiftLeft_eq, Nat.add_assoc]

theorem highBits_toNat (u : UInt16) : (u &&& 0xFC00).toNat = u.toNat / 1024 * 1024 := by
  have hd : (u.toNat &&& 0xFC00) / 2 ^ 10 = u.toNat / 2 ^ 10 % 2 ^ 6 := by
    rw [Nat.and_div_two_pow]
    exact Nat.and_two_pow_sub_one_eq_mod _ 6
  have hm : (u.toNat &&& 0xFC00) % 2 ^ 10 = 0 := by
    rw [Nat.and_mod_two_pow]
    exact Nat.and_zero _
  have hu := u.toNat_lt
  rw [UInt16.toNat_and]
  change u.toNat &&& 0xFC00 = _
  omega

theorem lowTen_toNat (u : UInt16) : (u &&& 0x3FF).toNat = u.toNat % 1024 := by
  rw [UInt16.toNat_and]
  exact Nat.and_two_pow_sub_one_eq_mod _ 10

theorem isHigh_iff (u : UInt16) : isHigh u = true ↔ u.toNat / 1024 = 54 := by
  have h := highBits_toNat u
  simp only [isHigh, beq_iff_eq, ← UInt16.toNat_inj, h]
  change _ = 0xD800 ↔ _
  omega

theorem isLow_iff (u : UInt16) : isLow u = true ↔ u.toNat / 1024 = 55 := by
  have h := highBits_toNat u
  simp only [isLow, beq_iff_eq, ← UInt16.toNat_inj, h]
  change _ = 0xDC00 ↔ _
  omega

/-! ### Without accumulators -/

theorem unitsFrom_append (acc front : List UInt16) (bytes : List UInt8) :
    unitsFrom (acc ++ front) bytes = front.reverse ++ unitsFrom acc bytes := by
  induction hlength : bytes.length using Nat.strongRecOn generalizing acc bytes with
  | ind n ih =>
    cases bytes with
    | nil => simp [unitsFrom]
    | cons a rest =>
      rw [List.length_cons] at hlength
      have hstep (u : UInt16) (more : List UInt8) (hmore : more.length < n) :
          unitsFrom (u :: (acc ++ front)) more = front.reverse ++ unitsFrom (u :: acc) more :=
        ih more.length hmore (u :: acc) more rfl
      rw [unitsFrom.eq_def (acc ++ front), unitsFrom.eq_def acc]
      by_cases hone : (a &&& 0x80 == 0) = true
      · simp only [if_pos hone]
        exact hstep _ rest (by omega)
      by_cases htwo : (a &&& 0xE0 == 0xC0) = true
      · simp only [if_neg hone, if_pos htwo]
        cases rest with
        | nil => simp
        | cons b rest => exact hstep _ rest (by rw [List.length_cons] at hlength; omega)
      by_cases hthree : (a &&& 0xF0 == 0xE0) = true
      · simp only [if_neg hone, if_neg htwo, if_pos hthree]
        rcases rest with _ | ⟨b, _ | ⟨c, rest⟩⟩
        · exact hstep _ [] (by omega)
        · exact hstep _ [b] (by omega)
        · exact hstep _ rest (by rw [List.length_cons, List.length_cons] at hlength; omega)
      · simp only [if_neg hone, if_neg htwo, if_neg hthree]
        exact hstep _ rest (by omega)

theorem unitsFrom_cons (u : UInt16) (bytes : List UInt8) :
    unitsFrom [u] bytes = u :: unitsFrom [] bytes :=
  unitsFrom_append [] [u] bytes

theorem charsFrom_append (acc front : List Char) (us : List UInt16) :
    charsFrom (acc ++ front) us = front.reverse ++ charsFrom acc us := by
  fun_induction charsFrom acc us with
  | case1 acc => simp [charsFrom]
  | case2 acc u => simp [charsFrom]
  | case3 acc u v rest h ih => rw [← ih, charsFrom, if_pos h, List.cons_append]
  | case4 acc u v rest h ih => rw [← ih, charsFrom, if_neg h, List.cons_append]

/-- A unit that opens no pair with the next one is read on its own. -/
theorem charsFrom_alone {u : UInt16} {us : List UInt16}
    (h : isHigh u = true → ∀ v ∈ us.head?, isLow v = false) :
    charsFrom [] (u :: us) = unitChar u :: charsFrom [] us := by
  rw [show unitChar u :: charsFrom [] us = charsFrom [unitChar u] us from
    (charsFrom_append [] [unitChar u] us).symm]
  cases us with
  | nil => simp [charsFrom]
  | cons v us =>
    have hpair : ¬ (isHigh u && isLow v) = true := by
      rw [Bool.and_eq_true]
      rintro ⟨hu, hv⟩
      rw [h hu v rfl] at hv
      cases hv
    rw [charsFrom, if_neg hpair]

theorem charsFrom_single {u : UInt16} (h : isHigh u = false) (us : List UInt16) :
    charsFrom [] (u :: us) = unitChar u :: charsFrom [] us := by
  refine charsFrom_alone fun hu => ?_
  rw [h] at hu
  cases hu

theorem charsFrom_pair {u v : UInt16} (hu : isHigh u = true) (hv : isLow v = true)
    (us : List UInt16) : charsFrom [] (u :: v :: us) = pairChar u v :: charsFrom [] us := by
  rw [charsFrom, if_pos (by rw [hu, hv]; rfl)]
  exact charsFrom_append [] [pairChar u v] us

/-! ### Texts and their units -/

/-- A unit whose number is that of a character is no half of a pair and stands for it. -/
theorem unit_of_char {u : UInt16} {c : Char} (h : u.toNat = c.toNat) :
    isHigh u = false ∧ unitChar u = c := by
  have hc := c.valid
  have hval : c.val.toNat = c.toNat := rfl
  have hhigh : isHigh u = false := by
    rw [← Bool.not_eq_true, isHigh_iff]
    rcases hc with hc | hc <;> omega
  have hlow : isLow u = false := by
    rw [← Bool.not_eq_true, isLow_iff]
    rcases hc with hc | hc <;> omega
  refine ⟨hhigh, ?_⟩
  simp only [unitChar, hhigh, hlow, Bool.or_self, Bool.false_eq_true, if_false, h,
    Char.ofNat_toNat]

theorem charsFrom_charUnits (c : Char) (us : List UInt16) :
    charsFrom [] (charUnits c ++ us) = c :: charsFrom [] us := by
  by_cases h : c.toNat < 0x10000
  · have hu : c.toNat.toUInt16.toNat = c.toNat := by
      rw [Nat.toUInt16, UInt16.toNat_ofNat_of_lt' h]
    obtain ⟨hhigh, hchar⟩ := unit_of_char hu
    rw [charUnits, if_pos h, List.singleton_append, charsFrom_single hhigh, hchar]
  · have hv : c.toNat < 0x110000 := by
      have := c.valid
      have hval : c.val.toNat = c.toNat := rfl
      rcases this with h | h <;> omega
    have hhigh : ((0xD800 + (c.toNat - 0x10000) / 1024).toUInt16).toNat =
        0xD800 + (c.toNat - 0x10000) / 1024 := by
      rw [Nat.toUInt16, UInt16.toNat_ofNat_of_lt' (by simp only [UInt16.size]; omega)]
    have hlow : ((0xDC00 + (c.toNat - 0x10000) % 1024).toUInt16).toNat =
        0xDC00 + (c.toNat - 0x10000) % 1024 := by
      rw [Nat.toUInt16, UInt16.toNat_ofNat_of_lt' (by simp only [UInt16.size]; omega)]
    rw [charUnits, if_neg h, List.cons_append, List.singleton_append,
      charsFrom_pair (by rw [isHigh_iff, hhigh]; omega) (by rw [isLow_iff, hlow]; omega)]
    have hsum : 0x10000 + (0xD800 + (c.toNat - 0x10000) / 1024) % 1024 * 1024 +
        (0xDC00 + (c.toNat - 0x10000) % 1024) % 1024 = c.toNat := by omega
    rw [pairChar, lowTen_toNat, lowTen_toNat, hhigh, hlow, hsum, Char.ofNat_toNat]

theorem ofUnits_units (s : String) : ofUnits (units s) = s := by
  have h : ∀ cs : List Char, charsFrom [] (cs.flatMap charUnits) = cs := by
    intro cs
    induction cs with
    | nil => simp [charsFrom]
    | cons c cs ih => rw [List.flatMap_cons, charsFrom_charUnits, ih]
  rw [ofUnits, units, h, String.ofList_toList]

/-! ### Units and their bytes -/

theorem unitsFrom_single {a : UInt8} (h : a.toNat < 128) (bytes : List UInt8) :
    unitsFrom [] (a :: bytes) = a.toUInt16 :: unitsFrom [] bytes := by
  rw [unitsFrom.eq_def]
  simp only [single_iff, h, decide_true, if_true]
  exact unitsFrom_cons _ _

theorem unitsFrom_double {a : UInt8} (h : a.toNat / 32 = 6) (b : UInt8) (bytes : List UInt8) :
    unitsFrom [] (a :: b :: bytes) = (bits a 0x1F <<< 6 ||| bits b 0x3F) :: unitsFrom [] bytes := by
  rw [unitsFrom.eq_def]
  have h₁ : ¬ a.toNat < 128 := by omega
  simp only [single_iff, double_iff, h, h₁, decide_true, decide_false, if_true,
    Bool.false_eq_true, if_false]
  exact unitsFrom_cons _ _

theorem unitsFrom_triple {a : UInt8} (h : a.toNat / 16 = 14) (b c : UInt8) (bytes : List UInt8) :
    unitsFrom [] (a :: b :: c :: bytes) =
      (bits a 0x0F <<< 12 ||| bits b 0x3F <<< 6 ||| bits c 0x3F) :: unitsFrom [] bytes := by
  rw [unitsFrom.eq_def]
  have h₁ : ¬ a.toNat < 128 := by omega
  have h₂ : ¬ a.toNat / 32 = 6 := by omega
  simp only [single_iff, double_iff, triple_iff, h, h₁, h₂, decide_true, decide_false, if_true,
    Bool.false_eq_true, if_false]
  exact unitsFrom_cons _ _

/-- A marking byte and bits below its lowest set bit add up. -/
theorem mark_toNat {mark x : UInt8} (n k : Nat) (h : mark.toNat = 2 ^ n * k)
    (hx : x.toNat < 2 ^ n) : (mark ||| x).toNat = mark.toNat + x.toNat := by
  rw [UInt8.toNat_or, h, Nat.two_pow_add_eq_or_of_lt hx]

theorem lowBits_toNat (u : UInt16) : (u &&& 0x3F).toUInt8.toNat = u.toNat % 64 := by
  rw [UInt16.toNat_toUInt8, UInt16.toNat_and]
  change (u.toNat &&& 2 ^ 6 - 1) % 2 ^ 8 = _
  rw [Nat.and_two_pow_sub_one_eq_mod]
  omega

theorem shiftRight_toNat (u : UInt16) {n : UInt16} (hn : n.toNat < 16) :
    (u >>> n).toNat = u.toNat / 2 ^ n.toNat := by
  rw [UInt16.toNat_shiftRight, Nat.mod_eq_of_lt hn, Nat.shiftRight_eq_div_pow]

/-- The bytes of a unit: itself, or its bits behind marks, six to a byte from the last one on. -/
theorem encodeUnit_cases (u : UInt16) :
    (0 < u.toNat ∧ u.toNat < 128 ∧ ∃ a, encodeUnit u = [a] ∧ a.toNat = u.toNat) ∨
    ((u.toNat = 0 ∨ 128 ≤ u.toNat) ∧ u.toNat < 2048 ∧ ∃ a b, encodeUnit u = [a, b] ∧
      a.toNat = 192 + u.toNat / 64 ∧ b.toNat = 128 + u.toNat % 64) ∨
    (2048 ≤ u.toNat ∧ ∃ a b c, encodeUnit u = [a, b, c] ∧ a.toNat = 224 + u.toNat / 4096 ∧
      b.toNat = 128 + u.toNat / 64 % 64 ∧ c.toNat = 128 + u.toNat % 64) := by
  have hu := u.toNat_lt
  have hl := lowBits_toNat u
  have hc := mark_toNat 7 1 (show (0x80 : UInt8).toNat = _ from rfl)
    (show (u &&& 0x3F).toUInt8.toNat < 2 ^ 7 by omega)
  simp only [encodeUnit, Bool.and_eq_true, decide_eq_true_eq, UInt16.lt_iff_toNat_lt]
  split_ifs with h h'
  · refine .inl ⟨h.1, h.2, _, rfl, ?_⟩
    have hlt : u.toNat < 128 := h.2
    rw [UInt16.toNat_toUInt8]
    omega
  · have hlt : u.toNat < 2048 := h'
    have hsmall : ¬ (0 < u.toNat ∧ u.toNat < 128) := h
    have hs : (u >>> 6).toUInt8.toNat = u.toNat / 64 := by
      rw [UInt16.toNat_toUInt8, shiftRight_toNat u (by decide)]
      change _ / 64 % 256 = _
      omega
    have ha := mark_toNat 5 6 (show (0xC0 : UInt8).toNat = _ from rfl)
      (show (u >>> 6).toUInt8.toNat < 2 ^ 5 by omega)
    exact .inr (.inl ⟨by omega, hlt, _, _, rfl, by rw [ha, hs]; rfl, by rw [hc, hl]; rfl⟩)
  · have hge : ¬ u.toNat < 2048 := h'
    have hs : (u >>> 12).toUInt8.toNat = u.toNat / 4096 := by
      rw [UInt16.toNat_toUInt8, shiftRight_toNat u (by decide)]
      change _ / 4096 % 256 = _
      omega
    have hm : ((u >>> 6) &&& 0x3F).toUInt8.toNat = u.toNat / 64 % 64 := by
      rw [lowBits_toNat, shiftRight_toNat u (by decide)]
      rfl
    have ha := mark_toNat 4 14 (show (0xE0 : UInt8).toNat = _ from rfl)
      (show (u >>> 12).toUInt8.toNat < 2 ^ 4 by omega)
    have hb := mark_toNat 7 1 (show (0x80 : UInt8).toNat = _ from rfl)
      (show ((u >>> 6) &&& 0x3F).toUInt8.toNat < 2 ^ 7 by omega)
    exact .inr (.inr ⟨by omega, _, _, _, rfl, by rw [ha, hs]; rfl, by rw [hb, hm]; rfl,
      by rw [hc, hl]; rfl⟩)

theorem unitsFrom_encodeUnit (u : UInt16) (bytes : List UInt8) :
    unitsFrom [] (encodeUnit u ++ bytes) = u :: unitsFrom [] bytes := by
  have hu := u.toNat_lt
  rcases encodeUnit_cases u with ⟨_, hlt, a, h, ha⟩ | ⟨_, hlt, a, b, h, ha, hb⟩ |
    ⟨_, a, b, c, h, ha, hb, hc⟩
  · rw [h, List.singleton_append, unitsFrom_single (by omega)]
    congr 1
    apply UInt16.toNat_inj.mp
    rw [UInt8.toNat_toUInt16, ha]
  · rw [h, List.cons_append, List.singleton_append, unitsFrom_double (by omega)]
    congr 1
    apply UInt16.toNat_inj.mp
    rw [doubleUnit_toNat, ha, hb]
    omega
  · rw [h, List.cons_append, List.cons_append, List.singleton_append,
      unitsFrom_triple (by omega)]
    congr 1
    apply UInt16.toNat_inj.mp
    rw [tripleUnit_toNat, ha, hb, hc]
    omega

/-- Any sequence of units, paired or not, comes back from its bytes. -/
theorem unitsFrom_encode (us : List UInt16) : unitsFrom [] (us.flatMap encodeUnit) = us := by
  induction us with
  | nil => simp [unitsFrom]
  | cons u us ih => rw [List.flatMap_cons, unitsFrom_encodeUnit, ih]

/-- No byte that encoding writes is zero or opens a form of four bytes. -/
theorem flatMap_encodeUnit_bounds (us : List UInt16) :
    ∀ b ∈ us.flatMap encodeUnit, 0 < b.toNat ∧ b.toNat < 0xF0 := by
  intro b hb
  obtain ⟨u, _, hu⟩ := List.mem_flatMap.mp hb
  have hlt := u.toNat_lt
  rcases encodeUnit_cases u with ⟨_, _, x, h, hx⟩ | ⟨_, _, x, y, h, hx, hy⟩ |
    ⟨_, x, y, z, h, hx, hy, hz⟩
  · rw [h, List.mem_singleton] at hu
    subst hu
    omega
  · rw [h, List.mem_cons, List.mem_singleton] at hu
    rcases hu with rfl | rfl <;> omega
  · rw [h, List.mem_cons, List.mem_cons, List.mem_singleton] at hu
    rcases hu with rfl | rfl | rfl <;> omega

/-! ### The short way -/

theorem toNat_ofNat {n : Nat} (h : n.isValidChar) : (Char.ofNat n).toNat = n := by
  rw [Char.ofNat, dif_pos h]
  rfl

theorem toNat_of_scalar? {least n : Nat} {c : Char} (h : Utf8.scalar? least n = some c) :
    c.toNat = n := by
  simp only [Utf8.scalar?] at h
  split_ifs at h with hn
  cases h
  exact toNat_ofNat hn.2

/-- A form of one to three bytes reads the same unit by unit. -/
theorem charsFrom_next? {a : UInt8} {rest behind : List UInt8} {c : Char} (hlt : a.toNat < 0xF0)
    (h : Utf8.next? a rest = some (c, behind)) :
    charsFrom [] (unitsFrom [] (a :: rest)) = c :: charsFrom [] (unitsFrom [] behind) := by
  revert h
  fun_cases Utf8.next? a rest with
  | case1 _ ha =>
    intro h
    cases h
    have ha' : a.toNat < 128 := ha
    have hc : (Char.ofNat a.toNat).toNat = a.toNat := toNat_ofNat (.inl (by omega))
    obtain ⟨hhigh, hchar⟩ := unit_of_char (u := a.toUInt16) (by rw [UInt8.toNat_toUInt16, hc])
    rw [unitsFrom_single ha', charsFrom_single hhigh, hchar]
  | case2 _ ha b rest =>
    intro h
    obtain ⟨c, hc, h⟩ := Option.map_eq_some_iff.mp h
    cases h
    rw [double_iff, decide_eq_true_eq] at ha
    have hn : (bits a 0x1F <<< 6 ||| bits b 0x3F).toNat = c.toNat := by
      rw [doubleUnit_toNat, toNat_of_scalar? hc, lowFive_toNat, Utf8.low6, lowSix_toNat]
    obtain ⟨hhigh, hchar⟩ := unit_of_char hn
    rw [unitsFrom_double ha, charsFrom_single hhigh, hchar]
  | case5 _ _ ha b b' rest =>
    intro h
    obtain ⟨c, hc, h⟩ := Option.map_eq_some_iff.mp h
    cases h
    rw [triple_iff, decide_eq_true_eq] at ha
    have hn : (bits a 0x0F <<< 12 ||| bits b 0x3F <<< 6 ||| bits b' 0x3F).toNat = c.toNat := by
      rw [tripleUnit_toNat, toNat_of_scalar? hc, lowFour_toNat, Utf8.low6, Utf8.low6,
        lowSix_toNat, lowSix_toNat]
    obtain ⟨hhigh, hchar⟩ := unit_of_char hn
    rw [unitsFrom_triple ha, charsFrom_single hhigh, hchar]
  | case8 _ _ _ ha =>
    rw [quadruple_iff, decide_eq_true_eq] at ha
    omega
  | _ => intro h; cases h

/-- The characters decoded from well-formed bytes do not depend on those decoded before. -/
theorem charsFrom_decodeFrom? (acc : List Char) (bytes : List UInt8)
    (hlt : ∀ b ∈ bytes, b.toNat < 0xF0) (cs : List Char)
    (h : Utf8.decodeFrom? acc bytes = some cs) :
    cs = acc.reverse ++ charsFrom [] (unitsFrom [] bytes) := by
  fun_induction Utf8.decodeFrom? acc bytes with
  | case1 acc =>
    cases h
    simp [unitsFrom, charsFrom]
  | case2 acc a rest c behind hc ih =>
    have hbehind : ∀ b ∈ behind, b.toNat < 0xF0 := fun b hb =>
      hlt b (List.mem_cons_of_mem _ ((Utf8.next?_suffix hc).subset hb))
    rw [ih hbehind h, charsFrom_next? (hlt a List.mem_cons_self) hc, List.reverse_cons,
      List.append_assoc, List.singleton_append]
  | case3 acc a rest hc => cases h

theorem decodeUnits_of_utf8 {bytes : List UInt8} {s : String}
    (hlt : ∀ b ∈ bytes, b.toNat < 0xF0) (h : Utf8.decode? bytes = some s) :
    decodeUnits bytes = s := by
  obtain ⟨cs, hcs, rfl⟩ := Option.map_eq_some_iff.mp h
  rw [charsFrom_decodeFrom? [] bytes hlt cs hcs]
  rfl

/-- The bytes of any sequence of units are read as the text of these units, whichever way they are
read. -/
theorem decode_units (us : List UInt16) : decode (us.flatMap encodeUnit) = ofUnits us := by
  have hunits : decodeUnits (us.flatMap encodeUnit) = ofUnits us := by
    rw [decodeUnits, unitsFrom_encode]
  rw [decode]
  split
  · rename_i t ht
    have hlt : ∀ b ∈ us.flatMap encodeUnit, b.toNat < 0xF0 :=
      fun b hb => (flatMap_encodeUnit_bounds us b hb).2
    rw [← decodeUnits_of_utf8 hlt ht, hunits]
  · exact hunits

/-- Every text comes back from its bytes. -/
theorem decode_encode (s : String) : decode (encode s) = s := by
  rw [encode, decode_units, ofUnits_units]

/-- Every text comes back from its bytes, so different texts have different bytes. None of the bytes
is zero, and none opens a form of four bytes. -/
theorem encode_lossless :
    (∀ s, decode (encode s) = s ∧ ∀ b ∈ encode s, b ≠ 0 ∧ b < 0xF0) ∧
      Function.Injective encode := by
  refine ⟨fun s => ⟨decode_encode s, fun b hb => ?_⟩, Function.LeftInverse.injective decode_encode⟩
  obtain ⟨hpos, hlt⟩ := flatMap_encodeUnit_bounds (units s) b hb
  refine ⟨?_, UInt8.lt_iff_toNat_lt.mpr hlt⟩
  rintro rfl
  exact absurd hpos (by decide)

example : encode "a\x00😀" = [0x61, 0xC0, 0x80, 0xED, 0xA0, 0xBD, 0xED, 0xB8, 0x80] := by decide

end ModifiedUtf8

end ClassAtlas
