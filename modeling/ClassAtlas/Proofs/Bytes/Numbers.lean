import ClassAtlas.Bytes.Basic

/-!
The big-endian forms of numbers have the length that their width says, and the numbers can be put
together again from their bytes.
-/

namespace ClassAtlas.Bytes

@[simp] theorem ofUInt16_length (v : UInt16) : (ofUInt16 v).length = 2 := rfl

@[simp] theorem ofUInt32_length (v : UInt32) : (ofUInt32 v).length = 4 := rfl

@[simp] theorem ofInt16_length (v : Int16) : (ofInt16 v).length = 2 := rfl

@[simp] theorem ofInt32_length (v : Int32) : (ofInt32 v).length = 4 := rfl

theorem toUInt16_bytes (v : UInt16) : toUInt16 (v >>> 8).toUInt8 v.toUInt8 = v := by
  have h : BitVec.setWidth 16 (BitVec.setWidth 8 (v.toBitVec >>> 8)) <<< 8 |||
      BitVec.setWidth 16 (BitVec.setWidth 8 v.toBitVec) = v.toBitVec := by
    ext i hi
    simp
    grind
  exact UInt16.eq_of_toBitVec_eq h

theorem toUInt32_bytes (v : UInt32) :
    toUInt32 (v >>> 24).toUInt8 (v >>> 16).toUInt8 (v >>> 8).toUInt8 v.toUInt8 = v := by
  have h : BitVec.setWidth 32 (BitVec.setWidth 8 (v.toBitVec >>> 24)) <<< 24 |||
      BitVec.setWidth 32 (BitVec.setWidth 8 (v.toBitVec >>> 16)) <<< 16 |||
      BitVec.setWidth 32 (BitVec.setWidth 8 (v.toBitVec >>> 8)) <<< 8 |||
      BitVec.setWidth 32 (BitVec.setWidth 8 v.toBitVec) = v.toBitVec := by
    ext i hi
    simp
    grind
  exact UInt32.eq_of_toBitVec_eq h

theorem uint64_halves (v : UInt64) :
    (v >>> 32).toUInt32.toUInt64 <<< 32 ||| v.toUInt32.toUInt64 = v := by
  have h : BitVec.setWidth 64 (BitVec.setWidth 32 (v.toBitVec >>> 32)) <<< 32 |||
      BitVec.setWidth 64 (BitVec.setWidth 32 v.toBitVec) = v.toBitVec := by
    ext i hi
    simp
    grind
  exact UInt64.eq_of_toBitVec_eq h

theorem ofUInt16_toUInt16 (a b : UInt8) : ofUInt16 (toUInt16 a b) = [a, b] := by
  have hhigh : (toUInt16 a b >>> 8).toUInt8 = a := by
    apply UInt8.eq_of_toBitVec_eq
    ext i hi
    simp [toUInt16]
    grind
  have hlow : (toUInt16 a b).toUInt8 = b := by
    apply UInt8.eq_of_toBitVec_eq
    ext i hi
    simp [toUInt16]
  rw [ofUInt16, hhigh, hlow]

theorem ofUInt32_toUInt32 (a b c d : UInt8) : ofUInt32 (toUInt32 a b c d) = [a, b, c, d] := by
  have hfirst : (toUInt32 a b c d >>> 24).toUInt8 = a := by
    apply UInt8.eq_of_toBitVec_eq
    ext i hi
    simp [toUInt32]
    grind
  have hsecond : (toUInt32 a b c d >>> 16).toUInt8 = b := by
    apply UInt8.eq_of_toBitVec_eq
    ext i hi
    simp [toUInt32]
    grind
  have hthird : (toUInt32 a b c d >>> 8).toUInt8 = c := by
    apply UInt8.eq_of_toBitVec_eq
    ext i hi
    simp [toUInt32]
    grind
  have hfourth : (toUInt32 a b c d).toUInt8 = d := by
    apply UInt8.eq_of_toBitVec_eq
    ext i hi
    simp [toUInt32]
  rw [ofUInt32, hfirst, hsecond, hthird, hfourth]

theorem ofUInt64_halves (high low : UInt32) :
    ofUInt64 (high.toUInt64 <<< 32 ||| low.toUInt64) = ofUInt32 high ++ ofUInt32 low := by
  have hhigh : ((high.toUInt64 <<< 32 ||| low.toUInt64) >>> 32).toUInt32 = high := by
    apply UInt32.eq_of_toBitVec_eq
    ext i hi
    simp
    grind
  have hlow : (high.toUInt64 <<< 32 ||| low.toUInt64).toUInt32 = low := by
    apply UInt32.eq_of_toBitVec_eq
    ext i hi
    simp
  rw [ofUInt64, hhigh, hlow]

/-- A number that fits 16 bits is not changed by them. -/
theorem toUInt16_toNat {n : Nat} (h : n < 65536) : n.toUInt16.toNat = n :=
  UInt16.toNat_ofNat_of_lt' h

/-- A number that fits 32 bits is not changed by them. -/
theorem toUInt32_toNat {n : Nat} (h : n < 4294967296) : n.toUInt32.toNat = n :=
  UInt32.toNat_ofNat_of_lt' h

/-- A number that fits 8 bits is not changed by them. -/
theorem toUInt8_toUInt16 {v : UInt16} (h : v ≤ 255) : v.toUInt8.toUInt16 = v := by
  have hv : v.toNat ≤ 255 := UInt16.le_iff_toNat_le.mp h
  rw [← UInt16.toNat_inj, UInt8.toNat_toUInt16, UInt16.toNat_toUInt8]
  omega

/-- The low byte of a small signed number, taken as signed again. -/
theorem toInt_lowByte {v : Int32} (h : -128 ≤ v.toInt) (h' : v.toInt ≤ 127) :
    v.toUInt32.toUInt8.toInt8.toInt = v.toInt := by
  have hlow : v.toUInt32.toUInt8.toInt8 = v.toInt8 := by
    rw [← Int8.toBitVec_inj]
    exact (BitVec.signExtend_eq_setWidth_of_le v.toBitVec (show 8 ≤ 32 by decide)).symm
  rw [hlow, Int32.toInt_toInt8, Int.bmod_eq_of_le (by omega) (by omega)]

/-- The low two bytes of a signed number that fits them, taken as signed again. -/
theorem toInt_lowBytes {v : Int32} (h : -32768 ≤ v.toInt) (h' : v.toInt ≤ 32767) :
    v.toUInt32.toUInt16.toInt16.toInt = v.toInt := by
  have hlow : v.toUInt32.toUInt16.toInt16 = v.toInt16 := by
    rw [← Int16.toBitVec_inj]
    exact (BitVec.signExtend_eq_setWidth_of_le v.toBitVec (show 16 ≤ 32 by decide)).symm
  rw [hlow, Int32.toInt_toInt16, Int.bmod_eq_of_le (by omega) (by omega)]

end ClassAtlas.Bytes
