import ClassAtlas.Proofs.Text.Utf8

/-!
UTF-8 read in two ways. The strict reader takes exactly the bytes of a text and gives this text.
Reading the same bytes unit by unit gives every character of up to three bytes, and four replacement
characters for each longer one, so the two ways agree exactly where no form of four bytes is opened.
-/

namespace ClassAtlas

namespace Utf8

open ModifiedUtf8 (double_iff triple_iff quadruple_iff)

/-- The form of a number, the shortest that has room for its bits: six of them in every byte but the
first, behind marks that tell how long the form is. -/
inductive IsForm (n : Nat) : List UInt8 → Prop
  | single {a : UInt8} (hlt : n < 0x80) (ha : a.toNat = n) : IsForm n [a]
  | double {a b : UInt8} (hge : 0x80 ≤ n) (hlt : n < 0x800) (ha : a.toNat = 0xC0 + n / 64)
    (hb : b.toNat = 0x80 + n % 64) : IsForm n [a, b]
  | triple {a b d : UInt8} (hge : 0x800 ≤ n) (hlt : n < 0x10000) (ha : a.toNat = 0xE0 + n / 4096)
    (hb : b.toNat = 0x80 + n / 64 % 64) (hd : d.toNat = 0x80 + n % 64) : IsForm n [a, b, d]
  | quadruple {a b d e : UInt8} (hge : 0x10000 ≤ n) (ha : a.toNat = 0xF0 + n / 262144)
    (hb : b.toNat = 0x80 + n / 4096 % 64) (hd : d.toNat = 0x80 + n / 64 % 64)
    (he : e.toNat = 0x80 + n % 64) : IsForm n [a, b, d, e]

theorem isForm_encodeChar (c : Char) : IsForm c.toNat (encodeChar c) := by
  have hbound := toNat_lt c
  have hbyte {n : Nat} (h : n < 256) : n.toUInt8.toNat = n := toUInt8_toNat h
  unfold encodeChar
  dsimp only
  split_ifs with hsingle hdouble htriple
  · exact .single hsingle (hbyte (by omega))
  · exact .double (by omega) hdouble (hbyte (by omega)) (hbyte (by omega))
  · exact .triple (by omega) htriple (hbyte (by omega)) (hbyte (by omega)) (hbyte (by omega))
  · exact .quadruple (by omega) (hbyte (by omega)) (hbyte (by omega)) (hbyte (by omega))
      (hbyte (by omega))

theorem IsForm.unique {n : Nat} {xs ys : List UInt8} (hx : IsForm n xs) (hy : IsForm n ys) :
    xs = ys := by
  have hbyte {x y : UInt8} {m : Nat} (hx : x.toNat = m) (hy : y.toNat = m) : x = y :=
    UInt8.toNat_inj.mp (hx.trans hy.symm)
  cases hx with
  | single hlt ha =>
    cases hy with
    | single _ ha' => rw [hbyte ha ha']
    | _ => omega
  | double hge hlt ha hb =>
    cases hy with
    | double _ _ ha' hb' => rw [hbyte ha ha', hbyte hb hb']
    | _ => omega
  | triple hge hlt ha hb hd =>
    cases hy with
    | triple _ _ ha' hb' hd' => rw [hbyte ha ha', hbyte hb hb', hbyte hd hd']
    | _ => omega
  | quadruple hge ha hb hd he =>
    cases hy with
    | quadruple _ ha' hb' hd' he' => rw [hbyte ha ha', hbyte hb hb', hbyte hd hd', hbyte he he']
    | _ => omega

/-- Only the forms of four bytes have a byte of 0xF0 or above. -/
theorem IsForm.short_iff {n : Nat} {bytes : List UInt8} (h : IsForm n bytes) :
    (∀ b ∈ bytes, b < 0xF0) ↔ n < 0x10000 := by
  have hbyte : (0xF0 : UInt8).toNat = 0xF0 := rfl
  cases h <;> simp only [List.mem_cons, List.not_mem_nil, or_false, forall_eq_or_imp, forall_eq,
    UInt8.lt_iff_toNat_lt, hbyte] <;> omega

/-! ### The strict reader -/

theorem isContinuation_iff (b : UInt8) : isContinuation b = decide (b.toNat / 64 = 2) := by
  have h : ∀ v : BitVec 8, isContinuation (UInt8.ofBitVec v) =
      decide ((UInt8.ofBitVec v).toNat / 64 = 2) := by decide
  exact h b.toBitVec

theorem low6_toNat (b : UInt8) : low6 b = b.toNat % 64 :=
  lowSix_toNat b

theorem lowThree_toNat (a : UInt8) : (a &&& 0x07).toNat = a.toNat % 8 :=
  and_mask_toNat a 0x07 3 rfl

theorem scalar?_eq_some_iff {least n : Nat} {c : Char} :
    scalar? least n = some c ↔ least ≤ n ∧ c.toNat = n := by
  constructor
  · intro h
    refine ⟨?_, ModifiedUtf8.toNat_of_scalar? h⟩
    unfold scalar? at h
    split_ifs at h with hn
    exact hn.1
  · rintro ⟨hleast, rfl⟩
    rw [scalar?, if_pos ⟨hleast, c.valid⟩, Char.ofNat_toNat]

theorem single_iff (a : UInt8) : a < 0x80 ↔ a.toNat < 0x80 :=
  UInt8.lt_iff_toNat_lt

theorem next?_single {a : UInt8} (ha : a.toNat < 0x80) (rest : List UInt8) :
    next? a rest = some (Char.ofNat a.toNat, rest) :=
  if_pos ((single_iff a).mpr ha)

theorem next?_double {a b : UInt8} (ha : a.toNat / 32 = 6) (hb : b.toNat / 64 = 2)
    (rest : List UInt8) : next? a (b :: rest) =
      (scalar? 0x80 (a.toNat % 32 * 64 + b.toNat % 64)).map (·, rest) := by
  have hsingle : ¬ a.toNat < 0x80 := by omega
  simp only [next?, single_iff, hsingle, double_iff, ha, isContinuation_iff, hb, decide_true,
    if_true, if_false, lowFive_toNat, low6_toNat]

theorem next?_triple {a b d : UInt8} (ha : a.toNat / 16 = 14) (hb : b.toNat / 64 = 2)
    (hd : d.toNat / 64 = 2) (rest : List UInt8) : next? a (b :: d :: rest) =
      (scalar? 0x800 (a.toNat % 16 * 4096 + b.toNat % 64 * 64 + d.toNat % 64)).map (·, rest) := by
  have hsingle : ¬ a.toNat < 0x80 := by omega
  have hdouble : ¬ a.toNat / 32 = 6 := by omega
  simp only [next?, single_iff, hsingle, double_iff, hdouble, triple_iff, ha, isContinuation_iff,
    hb, hd, decide_true, decide_false, Bool.false_eq_true, if_false, if_true, Bool.and_self,
    lowFour_toNat, low6_toNat]

theorem next?_quadruple {a b d e : UInt8} (ha : a.toNat / 8 = 30) (hb : b.toNat / 64 = 2)
    (hd : d.toNat / 64 = 2) (he : e.toNat / 64 = 2) (rest : List UInt8) :
    next? a (b :: d :: e :: rest) =
      (scalar? 0x10000 (a.toNat % 8 * 262144 + b.toNat % 64 * 4096 + d.toNat % 64 * 64 +
        e.toNat % 64)).map (·, rest) := by
  have hsingle : ¬ a.toNat < 0x80 := by omega
  have hdouble : ¬ a.toNat / 32 = 6 := by omega
  have htriple : ¬ a.toNat / 16 = 14 := by omega
  simp only [next?, single_iff, hsingle, double_iff, hdouble, triple_iff, htriple, quadruple_iff,
    ha, isContinuation_iff, hb, hd, he, decide_true, decide_false, Bool.false_eq_true, if_false,
    if_true, Bool.and_self, lowThree_toNat, low6_toNat]

/-- What the strict reader reads as a character is a form of it. -/
theorem form_of_next? {a : UInt8} {rest behind : List UInt8} {c : Char}
    (h : next? a rest = some (c, behind)) :
    ∃ tail, IsForm c.toNat (a :: tail) ∧ rest = tail ++ behind := by
  have hread {least n : Nat} {more : List UInt8}
      (h : (scalar? least n).map (·, more) = some (c, behind)) :
      least ≤ n ∧ c.toNat = n ∧ more = behind := by
    obtain ⟨d, hd, hpair⟩ := Option.map_eq_some_iff.mp h
    cases hpair
    obtain ⟨hleast, hn⟩ := scalar?_eq_some_iff.mp hd
    exact ⟨hleast, hn, rfl⟩
  revert h
  fun_cases next? a rest with
  | case1 _ ha =>
    intro h
    cases h
    rw [single_iff] at ha
    have hc : (Char.ofNat a.toNat).toNat = a.toNat := ModifiedUtf8.toNat_ofNat (.inl (by omega))
    exact ⟨[], .single (by omega) hc.symm, rfl⟩
  | case2 _ ha b rest hb =>
    intro h
    obtain ⟨hleast, hc, rfl⟩ := hread h
    rw [double_iff, decide_eq_true_eq] at ha
    rw [isContinuation_iff, decide_eq_true_eq] at hb
    rw [lowFive_toNat, low6_toNat] at hleast hc
    exact ⟨[b], .double (by omega) (by omega) (by omega) (by omega), rfl⟩
  | case5 _ _ ha b d rest hbd =>
    intro h
    obtain ⟨hleast, hc, rfl⟩ := hread h
    rw [triple_iff, decide_eq_true_eq] at ha
    rw [Bool.and_eq_true, isContinuation_iff, isContinuation_iff, decide_eq_true_eq,
      decide_eq_true_eq] at hbd
    rw [lowFour_toNat, low6_toNat, low6_toNat] at hleast hc
    exact ⟨[b, d], .triple (by omega) (by omega) (by omega) (by omega) (by omega), rfl⟩
  | case8 _ _ _ ha b d e rest hbde =>
    intro h
    obtain ⟨hleast, hc, rfl⟩ := hread h
    rw [quadruple_iff, decide_eq_true_eq] at ha
    rw [Bool.and_eq_true, Bool.and_eq_true, isContinuation_iff, isContinuation_iff,
      isContinuation_iff, decide_eq_true_eq, decide_eq_true_eq, decide_eq_true_eq] at hbde
    rw [lowThree_toNat, low6_toNat, low6_toNat, low6_toNat] at hleast hc
    exact ⟨[b, d, e], .quadruple (by omega) (by omega) (by omega) (by omega) (by omega), rfl⟩
  | _ => intro h; cases h

/-- A form is read as its character, whatever stands behind it. -/
theorem IsForm.next? {a : UInt8} {tail : List UInt8} {c : Char} (h : IsForm c.toNat (a :: tail))
    (behind : List UInt8) : Utf8.next? a (tail ++ behind) = some (c, behind) := by
  have hbound := toNat_lt c
  have hread {least n : Nat} (hleast : least ≤ n) (hn : c.toNat = n) :
      (scalar? least n).map (·, behind) = some (c, behind) := by
    rw [scalar?_eq_some_iff.mpr ⟨hleast, hn⟩, Option.map_some]
  cases h with
  | single hlt ha =>
    rw [List.nil_append, next?_single (by omega), ha, Char.ofNat_toNat]
  | double hge hlt ha hb =>
    rw [List.singleton_append, next?_double (by omega) (by omega)]
    exact hread (by omega) (by omega)
  | triple hge hlt ha hb hd =>
    rw [List.cons_append, List.singleton_append, next?_triple (by omega) (by omega) (by omega)]
    exact hread (by omega) (by omega)
  | quadruple hge ha hb hd he =>
    rw [List.cons_append, List.cons_append, List.singleton_append,
      next?_quadruple (by omega) (by omega) (by omega) (by omega)]
    exact hread (by omega) (by omega)

theorem exists_encodeChar (c : Char) : ∃ a tail, encodeChar c = a :: tail := by
  have hform := isForm_encodeChar c
  generalize encodeChar c = bytes at hform
  cases hform <;> exact ⟨_, _, rfl⟩

/-- The strict reader reads a character exactly where its form stands. -/
theorem next?_eq_some_iff {a : UInt8} {rest behind : List UInt8} {c : Char} :
    next? a rest = some (c, behind) ↔ a :: rest = encodeChar c ++ behind := by
  constructor
  · intro h
    obtain ⟨tail, hform, rfl⟩ := form_of_next? h
    rw [← hform.unique (isForm_encodeChar c), List.cons_append]
  · intro h
    obtain ⟨x, tail, hx⟩ := exists_encodeChar c
    rw [hx, List.cons_append] at h
    cases h
    exact IsForm.next? (hx ▸ isForm_encodeChar c) behind

theorem decodeFrom?_encodeChar (acc : List Char) (c : Char) (behind : List UInt8) :
    decodeFrom? acc (encodeChar c ++ behind) = decodeFrom? (c :: acc) behind := by
  obtain ⟨a, tail, h⟩ := exists_encodeChar c
  have hread : next? a (tail ++ behind) = some (c, behind) :=
    next?_eq_some_iff.mpr (by rw [h, List.cons_append])
  rw [h, List.cons_append, decodeFrom?.eq_def]
  dsimp only
  split
  · rename_i d more hd
    rw [hread] at hd
    cases hd
    rfl
  · rename_i hd
    rw [hread] at hd
    cases hd

theorem decodeFrom?_flatMap (acc cs : List Char) :
    decodeFrom? acc (cs.flatMap encodeChar) = some (acc.reverse ++ cs) := by
  induction cs generalizing acc with
  | nil => rw [List.flatMap_nil, decodeFrom?, List.append_nil]
  | cons c cs ih =>
    rw [List.flatMap_cons, decodeFrom?_encodeChar, ih, List.reverse_cons, List.append_assoc,
      List.singleton_append]

theorem flatMap_of_decodeFrom? {acc cs : List Char} {bytes : List UInt8}
    (h : decodeFrom? acc bytes = some cs) :
    ∃ ds, cs = acc.reverse ++ ds ∧ bytes = ds.flatMap encodeChar := by
  fun_induction decodeFrom? acc bytes with
  | case1 acc =>
    cases h
    exact ⟨[], (List.append_nil _).symm, rfl⟩
  | case2 acc a rest c behind hc ih =>
    obtain ⟨ds, hcs, hbehind⟩ := ih h
    refine ⟨c :: ds, ?_, ?_⟩
    · rw [hcs, List.reverse_cons, List.append_assoc, List.singleton_append]
    · rw [next?_eq_some_iff.mp hc, hbehind, List.flatMap_cons]
  | case3 acc a rest hc => cases h

/-- The strict reader takes exactly what a text is written as, and gives this text. -/
theorem decode?_eq_some_iff {bytes : List UInt8} {s : String} :
    decode? bytes = some s ↔ bytes = encode s := by
  constructor
  · intro h
    obtain ⟨cs, hcs, rfl⟩ := Option.map_eq_some_iff.mp h
    obtain ⟨ds, rfl, hbytes⟩ := flatMap_of_decodeFrom? hcs
    rw [hbytes, encode, String.toList_ofList]
  · rintro rfl
    rw [decode?, encode, decodeFrom?_flatMap, Option.map_some, List.reverse_nil, List.nil_append,
      String.ofList_toList]

theorem isForm_utf8EncodeChar (c : Char) : IsForm c.toNat (String.utf8EncodeChar c) := by
  have hbound := toNat_lt c
  have hbyte {m n : Nat} (hm : m < 256) (h : m = n) : (UInt8.ofNat m).toNat = n :=
    h ▸ toUInt8_toNat hm
  have hval : c.val.toNat = c.toNat := rfl
  unfold String.utf8EncodeChar
  dsimp only
  rw [hval]
  split_ifs with hsingle hdouble htriple
  · exact .single (by omega) (hbyte (by omega) rfl)
  · exact .double (by omega) (by omega) (hbyte (by omega) (by omega)) (hbyte (by omega) (by omega))
  · exact .triple (by omega) (by omega) (hbyte (by omega) (by omega)) (hbyte (by omega) (by omega))
      (hbyte (by omega) (by omega))
  · exact .quadruple (by omega) (hbyte (by omega) (by omega)) (hbyte (by omega) (by omega))
      (hbyte (by omega) (by omega)) (hbyte (by omega) (by omega))

/-- A text is written as the bytes that it is made of. -/
theorem toByteArray_encode (s : String) : (encode s).toByteArray = s.toByteArray := by
  have hchar : encodeChar = String.utf8EncodeChar :=
    funext fun c => (isForm_encodeChar c).unique (isForm_utf8EncodeChar c)
  rw [encode, hchar]
  exact String.utf8Encode_toList

end Utf8

namespace ModifiedUtf8

/-- What the form of a character is read as unit by unit. -/
def unitwise (c : Char) : List Char :=
  if c.toNat < 0x10000 then [c] else List.replicate 4 replacement

/-- A byte that opens no form of one to three bytes is read as the replacement character. -/
theorem charsFrom_stray {a : UInt8} (hsingle : ¬ a.toNat < 128) (hdouble : ¬ a.toNat / 32 = 6)
    (htriple : ¬ a.toNat / 16 = 14) (bytes : List UInt8) :
    charsFrom [] (unitsFrom [] (a :: bytes)) =
      replacement :: charsFrom [] (unitsFrom [] bytes) := by
  have hunits : unitsFrom [] (a :: bytes) = 0xFFFD :: unitsFrom [] bytes := by
    rw [unitsFrom.eq_def]
    simp only [single_iff, hsingle, double_iff, hdouble, triple_iff, htriple, decide_false,
      Bool.false_eq_true, if_false]
    exact unitsFrom_cons _ _
  rw [hunits, charsFrom_single (by decide)]
  rfl

/-- The form of a character is read on its own, whatever stands behind it. -/
theorem charsFrom_encodeChar (c : Char) (bytes : List UInt8) :
    charsFrom [] (unitsFrom [] (Utf8.encodeChar c ++ bytes)) =
      unitwise c ++ charsFrom [] (unitsFrom [] bytes) := by
  have hform := Utf8.isForm_encodeChar c
  have hbound := Utf8.toNat_lt c
  rw [unitwise]
  split_ifs with hshort
  · obtain ⟨a, tail, h⟩ := Utf8.exists_encodeChar c
    rw [h] at hform ⊢
    have ha : a < 0xF0 := hform.short_iff.mpr hshort a List.mem_cons_self
    rw [List.cons_append, charsFrom_next? (UInt8.lt_iff_toNat_lt.mp ha) (hform.next? bytes),
      List.singleton_append]
  · generalize Utf8.encodeChar c = form at hform
    cases hform with
    | quadruple hge ha hb hd he =>
      simp only [List.cons_append, List.nil_append]
      -- a byte that opens or continues such a form opens no shorter one
      rw [charsFrom_stray (by omega) (by omega) (by omega),
        charsFrom_stray (by omega) (by omega) (by omega),
        charsFrom_stray (by omega) (by omega) (by omega),
        charsFrom_stray (by omega) (by omega) (by omega)]
      rfl
    | _ => omega

/-- Read unit by unit, UTF-8 gives every character that takes at most three bytes, and four
replacement characters for each of the others. -/
theorem decodeUnits_utf8 (s : String) :
    decodeUnits (Utf8.encode s) = String.ofList (s.toList.flatMap unitwise) := by
  have hchars (cs : List Char) :
      charsFrom [] (unitsFrom [] (cs.flatMap Utf8.encodeChar)) = cs.flatMap unitwise := by
    induction cs with
    | nil => simp [unitsFrom, charsFrom]
    | cons c cs ih => rw [List.flatMap_cons, List.flatMap_cons, charsFrom_encodeChar, ih]
  rw [decodeUnits, ofUnits, Utf8.encode, hchars]

example : decodeUnits [0x61, 0xF0, 0x9F, 0x98, 0x80] = "a\uFFFD\uFFFD\uFFFD\uFFFD" := by cbv

theorem flatMap_unitwise_eq_iff (cs : List Char) :
    cs.flatMap unitwise = cs ↔ ∀ c ∈ cs, c.toNat < 0x10000 := by
  induction cs with
  | nil => simp
  | cons c cs ih =>
    rw [List.flatMap_cons, List.forall_mem_cons, unitwise]
    split_ifs with hshort
    · rw [List.singleton_append, List.cons_inj_right, ih]
      exact (and_iff_right hshort).symm
    · refine iff_of_false ?_ fun h => hshort h.1
      -- the replacement character itself takes three bytes
      intro h
      have hc : replacement = c := (List.cons.inj h).1
      exact hshort (hc ▸ by decide)

theorem encode_short_iff (s : String) :
    (∀ b ∈ Utf8.encode s, b < 0xF0) ↔ ∀ c ∈ s.toList, c.toNat < 0x10000 := by
  rw [Utf8.encode, List.forall_mem_flatMap]
  exact forall₂_congr fun c _ => (Utf8.isForm_encodeChar c).short_iff

/-- Valid UTF-8 is read as the text that it holds. Read unit by unit it gives the same text exactly
if no byte is 0xF0 or above. -/
theorem decode_eq_decodeUnits_iff {bytes : List UInt8} (h : bytes.toByteArray.IsValidUTF8) :
    Utf8.decode? bytes = some (String.fromUTF8 bytes.toByteArray h) ∧
      decode bytes = String.fromUTF8 bytes.toByteArray h ∧
      (decode bytes = decodeUnits bytes ↔ ∀ b ∈ bytes, b < 0xF0) := by
  generalize hs : String.fromUTF8 bytes.toByteArray h = s
  have hbytes : bytes = Utf8.encode s := by
    rw [← List.toByteArray_inj, Utf8.toByteArray_encode, ← hs]
    rfl
  have hstrict : Utf8.decode? bytes = some s := Utf8.decode?_eq_some_iff.mpr hbytes
  have hdecode : decode bytes = s := by rw [decode, hstrict]
  refine ⟨hstrict, hdecode, ?_⟩
  rw [hdecode, hbytes, decodeUnits_utf8, encode_short_iff, ← flatMap_unitwise_eq_iff,
    ← String.toList_inj, String.toList_ofList]
  exact eq_comm

/-- Characters of one to three bytes side by side, the last two next to the surrogates. -/
def mixedForms : List UInt8 :=
  [0x00, 0x61, 0xC3, 0xA9, 0xED, 0x9F, 0xBF, 0xEE, 0x80, 0x80]

theorem mixedForms_read_alike :
    mixedForms.toByteArray.IsValidUTF8 ∧ (∀ b ∈ mixedForms, b < 0xF0) ∧
      Utf8.decode? mixedForms = some "\x00aé\uD7FF\uE000" ∧
      decodeUnits mixedForms = "\x00aé\uD7FF\uE000" := by
  have hforms : mixedForms = Utf8.encode "\x00aé\uD7FF\uE000" := by decide
  have hbytes : mixedForms.toByteArray = "\x00aé\uD7FF\uE000".toByteArray := by
    rw [hforms, Utf8.toByteArray_encode]
  have hvalid : mixedForms.toByteArray.IsValidUTF8 := hbytes ▸ String.isValidUTF8 _
  have hshort : ∀ b ∈ mixedForms, b < 0xF0 := by simp [mixedForms]
  have htext : String.fromUTF8 mixedForms.toByteArray hvalid = "\x00aé\uD7FF\uE000" :=
    String.toByteArray_inj.mp hbytes
  obtain ⟨hstrict, hdecode, hagree⟩ := decode_eq_decodeUnits_iff hvalid
  rw [htext] at hstrict hdecode
  exact ⟨hvalid, hshort, hstrict, (hagree.mpr hshort).symm.trans hdecode⟩

end ModifiedUtf8

end ClassAtlas
