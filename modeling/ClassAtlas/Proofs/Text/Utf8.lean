import ClassAtlas.Proofs.Text.ModifiedUtf8
import ClassAtlas.Text.Lossy

/-!
UTF-8 is read back as it was written. Every form begins with a byte that says how long it is, and
bytes that continue it follow, so that nothing has to be replaced. Longer forms begin with greater
bytes, so texts are ordered as their bytes are.
-/

namespace ClassAtlas.Utf8

theorem toUInt8_toNat {n : Nat} (h : n < 256) : n.toUInt8.toNat = n :=
  Nat.mod_eq_of_lt h

/-- A byte that begins a longer form. -/
theorem next_begun {b : UInt8} {form : Begun} (h : begun? b = some form) (chars : List Char) :
    Progress.next ⟨chars, none⟩ b = ⟨chars, some form⟩ := by
  have hlong : ¬ b < 0x80 := by
    intro hshort
    have hnone : begun? b = none := if_pos (UInt8.lt_trans hshort (by decide))
    rw [hnone] at h
    cases h
  rw [Progress.next]
  dsimp only
  rw [Progress.first, if_neg hlong, h]

/-- A byte that continues a form, by its value bits. -/
theorem next_continued {value missing x : Nat} {least greatest : UInt8} (hx : x < 64)
    (hleast : least.toNat ≤ 0x80 + x) (hgreatest : 0x80 + x ≤ greatest.toNat) (chars : List Char) :
    Progress.next ⟨chars, some ⟨value, missing, least, greatest⟩⟩ (0x80 + x).toUInt8 =
      if missing = 1 then ⟨Char.ofNat (value * 64 + x) :: chars, none⟩
      else ⟨chars, some ⟨value * 64 + x, missing - 1, 0x80, 0xBF⟩⟩ := by
  have hb : (0x80 + x).toUInt8.toNat = 0x80 + x := toUInt8_toNat (by omega)
  have hlow : low6 (0x80 + x).toUInt8 = x := by
    rw [low6, lowSix_toNat, hb]
    omega
  have hbounds : (least ≤ (0x80 + x).toUInt8 && (0x80 + x).toUInt8 ≤ greatest) = true := by
    simp only [Bool.and_eq_true, decide_eq_true_eq, UInt8.le_iff_toNat_le, hb]
    exact ⟨hleast, hgreatest⟩
  rw [Progress.next]
  dsimp only
  rw [if_pos hbounds, hlow]

/-- A byte that continues a form where every continuation can stand. -/
theorem next_tail {value missing x : Nat} (hx : x < 64) (chars : List Char) :
    Progress.next ⟨chars, some ⟨value, missing, 0x80, 0xBF⟩⟩ (0x80 + x).toUInt8 =
      if missing = 1 then ⟨Char.ofNat (value * 64 + x) :: chars, none⟩
      else ⟨chars, some ⟨value * 64 + x, missing - 1, 0x80, 0xBF⟩⟩ := by
  refine next_continued hx ?_ ?_ chars
  · exact Nat.le_add_right 0x80 x
  · exact Nat.add_le_add_left (Nat.le_of_lt_succ hx) 0x80

theorem begun?_double : ∀ x < 32, 2 ≤ x →
    begun? (0xC0 + x).toUInt8 = some ⟨x, 1, 0x80, 0xBF⟩ := by
  decide

theorem begun?_triple : ∀ x < 16, begun? (0xE0 + x).toUInt8 =
    some ⟨x, 2, if x = 0 then 0xA0 else 0x80, if x = 13 then 0x9F else 0xBF⟩ := by
  decide

theorem begun?_quadruple : ∀ x < 5, begun? (0xF0 + x).toUInt8 =
    some ⟨x, 3, if x = 0 then 0x90 else 0x80, if x = 4 then 0x8F else 0xBF⟩ := by
  decide

/-- A character is read from its form alone. -/
theorem foldl_next_encodeChar (c : Char) (chars : List Char) :
    (encodeChar c).foldl Progress.next ⟨chars, none⟩ = ⟨c :: chars, none⟩ := by
  have hchar {n : Nat} (h : n = c.toNat) : Char.ofNat n = c := by rw [h, Char.ofNat_toNat]
  have hvalid : c.toNat < 0xD800 ∨ 0xDFFF < c.toNat ∧ c.toNat < 0x110000 := c.valid
  unfold encodeChar
  generalize hn : c.toNat = n at hvalid
  dsimp only
  split_ifs with hsingle hdouble htriple
  · have hb : n.toUInt8.toNat = n := toUInt8_toNat (by omega)
    have hshort : n.toUInt8 < 0x80 := UInt8.lt_iff_toNat_lt.mpr (hb.trans_lt hsingle)
    rw [List.foldl_cons, List.foldl_nil, Progress.next]
    dsimp only
    rw [Progress.first, if_pos hshort, hb, hchar hn.symm]
  · have hvalue : n / 64 * 64 + n % 64 = c.toNat := by omega
    rw [List.foldl_cons, List.foldl_cons, List.foldl_nil,
      next_begun (begun?_double (n / 64) (by omega) (by omega)),
      next_tail (by omega), if_pos rfl, hchar hvalue]
  · have hvalue : (n / 4096 * 64 + n / 64 % 64) * 64 + n % 64 = c.toNat := by omega
    rw [List.foldl_cons, List.foldl_cons, List.foldl_cons, List.foldl_nil,
      next_begun (begun?_triple (n / 4096) (by omega)), next_continued (by omega),
      if_neg (by decide), next_tail (by omega), if_pos rfl, hchar hvalue]
    · -- the least form of three bytes leaves the first of them without value bits
      split_ifs
      · have hleast : 0x20 ≤ n / 64 % 64 := by omega
        exact Nat.add_le_add_left hleast 0x80
      · exact Nat.le_add_right _ _
    · -- surrogates are no characters
      split_ifs
      · have hgreatest : n / 64 % 64 ≤ 0x1F := by omega
        exact Nat.add_le_add_left hgreatest 0x80
      · have hgreatest : n / 64 % 64 ≤ 0x3F := by omega
        exact Nat.add_le_add_left hgreatest 0x80
  · have hvalue : ((n / 262144 * 64 + n / 4096 % 64) * 64 + n / 64 % 64) * 64 + n % 64 =
        c.toNat := by omega
    rw [List.foldl_cons, List.foldl_cons, List.foldl_cons, List.foldl_cons, List.foldl_nil,
      next_begun (begun?_quadruple (n / 262144) (by omega)), next_continued (by omega),
      if_neg (by decide), next_tail (by omega), if_neg (by decide), next_tail (by omega),
      if_pos rfl, hchar hvalue]
    · split_ifs
      · have hleast : 0x10 ≤ n / 4096 % 64 := by omega
        exact Nat.add_le_add_left hleast 0x80
      · exact Nat.le_add_right _ _
    · split_ifs
      · have hgreatest : n / 4096 % 64 ≤ 0x0F := by omega
        exact Nat.add_le_add_left hgreatest 0x80
      · have hgreatest : n / 4096 % 64 ≤ 0x3F := by omega
        exact Nat.add_le_add_left hgreatest 0x80

/-- Reading gives a text back from its bytes, and replaces nothing. -/
theorem decodeLossy_encode (s : String) : decodeLossy (encode s) = s := by
  have hchars (cs chars : List Char) :
      (cs.flatMap encodeChar).foldl Progress.next ⟨chars, none⟩ = ⟨cs.reverse ++ chars, none⟩ := by
    induction cs generalizing chars with
    | nil => rfl
    | cons c cs ih =>
      rw [List.flatMap_cons, List.foldl_append, foldl_next_encodeChar, ih, List.reverse_cons,
        List.append_assoc, List.singleton_append]
  rw [decodeLossy, encode, hchars]
  simp

/-- Texts with the same bytes are the same. -/
theorem encode_injective : Function.Injective encode :=
  Function.LeftInverse.injective decodeLossy_encode

theorem zero_notMem_encodeChar {c : Char} (h : c ≠ '\x00') : 0 ∉ encodeChar c := by
  have hpos : c.toNat ≠ 0 := fun hzero => h (Char.toNat_inj.mp hzero)
  have hbyte {n : Nat} (hn : n ≠ 0) (hlt : n < 256) : (0 : UInt8) ≠ n.toUInt8 := by
    intro hzero
    have hsame := congrArg UInt8.toNat hzero
    rw [toUInt8_toNat hlt] at hsame
    exact hn hsame.symm
  have hlt : c.toNat < 0xD800 ∨ 0xDFFF < c.toNat ∧ c.toNat < 0x110000 := c.valid
  unfold encodeChar
  dsimp only
  split_ifs <;> simp only [List.mem_cons, List.not_mem_nil, or_false, not_or]
  · exact hbyte hpos (by omega)
  · exact ⟨hbyte (by omega) (by omega), hbyte (by omega) (by omega)⟩
  · exact ⟨hbyte (by omega) (by omega), hbyte (by omega) (by omega), hbyte (by omega) (by omega)⟩
  · exact ⟨hbyte (by omega) (by omega), hbyte (by omega) (by omega), hbyte (by omega) (by omega),
      hbyte (by omega) (by omega)⟩

/-- Only a zero character is written with a zero byte. -/
theorem zero_notMem_encode {s : String} (h : '\x00' ∉ s.toList) : 0 ∉ encode s := by
  rw [encode, List.mem_flatMap]
  intro hzero
  obtain ⟨c, hc, hbyte⟩ := hzero
  exact zero_notMem_encodeChar (fun hnul => h (hnul ▸ hc)) hbyte

theorem encodeChar_length (c : Char) : (encodeChar c).length = c.utf8Size := by
  have hle {bound : UInt32} : c.val ≤ bound ↔ c.toNat ≤ bound.toNat := UInt32.le_iff_toNat_le
  unfold encodeChar Char.utf8Size
  dsimp only
  simp only [hle, UInt32.toNat_ofNatLT]
  split_ifs <;> first | rfl | omega

/-- A text takes up as many bytes as it says. -/
theorem encode_length (s : String) : (encode s).length = s.utf8ByteSize := by
  have hchars (cs : List Char) :
      (cs.flatMap encodeChar).length = (String.ofList cs).utf8ByteSize := by
    induction cs with
    | nil => rfl
    | cons c cs ih =>
      have hcons : String.ofList (c :: cs) = String.singleton c ++ String.ofList cs := by
        refine String.ext ?_
        simp
      rw [List.flatMap_cons, List.length_append, ih, encodeChar_length, hcons,
        String.utf8ByteSize_append, String.utf8ByteSize_singleton]
  rw [encode, hchars, String.ofList_toList]

/-! ### Order -/

theorem toUInt8_lt_iff {m n : Nat} (hm : m < 256) (hn : n < 256) :
    m.toUInt8 < n.toUInt8 ↔ m < n := by
  rw [UInt8.lt_iff_toNat_lt, toUInt8_toNat hm, toUInt8_toNat hn]

theorem toUInt8_inj {m n : Nat} (hm : m < 256) (hn : n < 256) :
    m.toUInt8 = n.toUInt8 ↔ m = n := by
  rw [← UInt8.toNat_inj, toUInt8_toNat hm, toUInt8_toNat hn]

theorem toNat_lt (c : Char) : c.toNat < 0x110000 := by
  have hvalid : c.toNat < 0xD800 ∨ 0xDFFF < c.toNat ∧ c.toNat < 0x110000 := c.valid
  omega

/-- The greater of two characters has the greater form, whatever stands behind the two. -/
theorem encodeChar_lt {c d : Char} (h : c < d) (xs ys : List UInt8) :
    encodeChar c ++ xs < encodeChar d ++ ys := by
  have hlt : c.toNat < d.toNat := h
  have hbound := toNat_lt d
  unfold encodeChar
  dsimp only
  split_ifs <;> simp (disch := omega) only [List.cons_append, List.nil_append,
    List.cons_lt_cons_iff, toUInt8_lt_iff, toUInt8_inj] <;> omega

theorem flatMap_encodeChar_lt {cs ds : List Char} (h : cs < ds) :
    cs.flatMap encodeChar < ds.flatMap encodeChar := by
  induction cs generalizing ds with
  | nil =>
    cases ds with
    | nil => exact absurd h (List.not_lt_nil _)
    | cons d ds =>
      have hne : (d :: ds).flatMap encodeChar ≠ [] := by
        rw [List.flatMap_cons]
        unfold encodeChar
        dsimp only
        split_ifs <;> simp
      obtain ⟨b, rest, hbytes⟩ := List.exists_cons_of_ne_nil hne
      rw [hbytes]
      exact List.nil_lt_cons _ _
  | cons c cs ih =>
    cases ds with
    | nil => exact absurd h (List.not_lt_nil _)
    | cons d ds =>
      rw [List.flatMap_cons, List.flatMap_cons]
      rcases List.cons_lt_cons_iff.mp h with hlt | ⟨rfl, hrest⟩
      · exact encodeChar_lt hlt _ _
      · exact List.append_left_lt (ih hrest)

/-- Texts are in the order of their bytes. -/
theorem encode_lt_iff {s t : String} : encode s < encode t ↔ s < t := by
  have hforth {s t : String} (h : s < t) : encode s < encode t :=
    flatMap_encodeChar_lt (String.lt_iff_toList_lt.mp h)
  refine ⟨fun h => ?_, hforth⟩
  rcases lt_trichotomy s t with hlt | rfl | hgt
  · exact hlt
  · exact absurd h (List.lt_irrefl _)
  · exact absurd h (List.lt_asymm (hforth hgt))

theorem encode_le_iff {s t : String} : encode s ≤ encode t ↔ s ≤ t :=
  not_congr encode_lt_iff

end ClassAtlas.Utf8
