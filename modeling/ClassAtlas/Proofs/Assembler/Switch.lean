import ClassAtlas.Proofs.Assembler.Encoding

/-!
Switches. Their distances are 32 bits wide and are written whether they fit or not; so a switch comes
back with its targets exactly if all of them are within the reach of such a number.
-/

namespace ClassAtlas.Assembler

open Reader Code

variable {places : Nat → Nat} {pool : Pool} {length offset : Nat}

/-- What a switch says about the way from an offset to a label. -/
def distance (places : Nat → Nat) (base label : Nat) : Int32 :=
  Int32.ofInt ((places label : Int) - base)

/-- The way that a switch says leads to the label. -/
def Reaches (places : Nat → Nat) (base label : Nat) : Prop :=
  (places label : Int) = base + (distance places base label).toInt

/-- A distance leads to its label exactly if it fits. -/
theorem fits_iff_reaches {start base label : Nat} :
    Fixup.Fits places ⟨start, base, label, true⟩ ↔ Reaches places base label := by
  have hlow := (distance places base label).le_toInt
  have hhigh := (distance places base label).toInt_lt
  simp only [Fixup.Fits, if_true, Fixup.delta, Reaches]
  constructor
  · rintro ⟨hmin, hmax⟩
    rw [distance, Int32.toInt_ofInt_of_le hmin (Int.lt_add_one_of_le hmax)]
    omega
  · intro h
    omega

theorem wideFixups_fit_iff {start base : Nat} {labels : List Nat} :
    (∀ f ∈ wideFixups start base labels, f.Fits places) ↔
      ∀ label ∈ labels, Reaches places base label := by
  induction labels generalizing start with
  | nil => simp [wideFixups]
  | cons label labels ih =>
    rw [wideFixups_cons, List.forall_mem_cons, List.forall_mem_cons, fits_iff_reaches, ih]

theorem switch_fits_iff {low : Int32} {default : Nat} {targets : List Nat} :
    (∀ f ∈ (switchPiece offset low default targets).fixups, f.Fits places) ↔
      ∀ label ∈ default :: targets, Reaches places offset label := by
  simp only [switchPiece, List.forall_mem_cons, fits_iff_reaches, wideFixups_fit_iff]

/-! ### The bytes of a switch -/

theorem apply_zeros (start : Nat) (f : Fixup) (hwide : f.wide = true) (front back : Bytes)
    (hplace : f.place = start + front.length) :
    Fixup.apply places start (front ++ [0, 0, 0, 0] ++ back) f =
      front ++ Bytes.ofInt32 (distance places f.base f.label) ++ back := by
  have hword : f.word places = Bytes.ofInt32 (distance places f.base f.label) := by
    rw [Fixup.word, if_pos hwide]
    rfl
  have hstart : f.place - start = front.length + 0 := by omega
  rw [Fixup.apply, hstart, hword, Bytes.overwrite_append (by simp),
    Bytes.overwrite_all (by simp)]

theorem foldl_wideFixups (start base : Nat) (labels : List Nat) :
    (wideFixups start base labels).foldl (Fixup.apply places start)
        (List.replicate (4 * labels.length) 0) =
      (labels.map fun label => Bytes.ofInt32 (distance places base label)).flatten := by
  induction labels generalizing start with
  | nil => rfl
  | cons label labels ih =>
    have hzeros : List.replicate (4 * (label :: labels).length) (0 : UInt8) =
        [] ++ [0, 0, 0, 0] ++ List.replicate (4 * labels.length) 0 := by
      rw [List.length_cons, Nat.mul_succ, Nat.add_comm, List.replicate_add]
      rfl
    have hinside := @wideFixups_inside (start + 4) base labels
    rw [wideFixups_cons, List.foldl_cons, hzeros, apply_zeros start _ rfl [] _ rfl, List.nil_append,
      ← List.append_nil (_ ++ List.replicate _ _), foldl_apply_inside start _ [], List.append_nil,
      Bytes.ofInt32_length, ih, List.map_cons, List.flatten_cons]
    intro f hf
    have := hinside f hf
    rw [Bytes.ofInt32_length, List.length_replicate]
    omega

/-- What stands behind the opcode of a switch, with the distances filled in. -/
def switchOperand (places : Nat → Nat) (offset : Nat) (low : Int32) (default : Nat)
    (targets : List Nat) : Bytes :=
  List.replicate (switchPadding offset) 0 ++ (Bytes.ofInt32 (distance places offset default) ++
    (Bytes.ofInt32 low ++ (Bytes.ofInt32 (lastKey low targets.length) ++
      (targets.map fun label => Bytes.ofInt32 (distance places offset label)).flatten)))

theorem switch_bytes (low : Int32) (default : Nat) (targets : List Nat) :
    Placed.bytes places
        ⟨.tableSwitch low default targets, offset, switchPiece offset low default targets⟩ =
      Opcode.tableswitch :: switchOperand places offset low default targets := by
  have hfront : (Opcode.tableswitch :: List.replicate (switchPadding offset) 0 : Bytes).length =
      1 + switchPadding offset := by
    rw [List.length_cons, List.length_replicate, Nat.add_comm]
  have hfirst := @apply_zeros places offset
    ⟨offset + 1 + switchPadding offset, offset, default, true⟩ rfl
    (Opcode.tableswitch :: List.replicate (switchPadding offset) 0)
    (Bytes.ofInt32 low ++ Bytes.ofInt32 (lastKey low targets.length) ++
      List.replicate (4 * targets.length) 0) (by rw [hfront, Nat.add_assoc])
  -- what lies in front of the distances to the targets
  have hhead : (Opcode.tableswitch :: List.replicate (switchPadding offset) 0 ++
      Bytes.ofInt32 (distance places offset default) ++ (Bytes.ofInt32 low ++
        Bytes.ofInt32 (lastKey low targets.length)) : Bytes).length =
      1 + switchPadding offset + 12 := by
    simp only [List.length_append, hfront, Bytes.ofInt32_length]
  have hplace : offset + 1 + switchPadding offset + 12 = offset + (1 + switchPadding offset + 12) := by
    omega
  have hinside := @wideFixups_inside (offset + (1 + switchPadding offset + 12)) offset targets
  have hrest := @foldl_apply_inside places offset
    (Opcode.tableswitch :: List.replicate (switchPadding offset) 0 ++
      Bytes.ofInt32 (distance places offset default) ++ (Bytes.ofInt32 low ++
        Bytes.ofInt32 (lastKey low targets.length))) []
    (List.replicate (4 * targets.length) 0)
    (wideFixups (offset + 1 + switchPadding offset + 12) offset targets)
    (by rw [hhead, hplace, List.length_replicate]; exact hinside)
  rw [hhead, ← hplace, foldl_wideFixups, List.append_nil, List.append_nil] at hrest
  have hpiece : (switchPiece offset low default targets).bytes =
      Opcode.tableswitch :: List.replicate (switchPadding offset) 0 ++ [0, 0, 0, 0] ++
        (Bytes.ofInt32 low ++ Bytes.ofInt32 (lastKey low targets.length) ++
          List.replicate (4 * targets.length) 0) := by
    simp only [switchPiece, switchPadding, List.append_assoc, List.cons_append]
  have hfixups : (switchPiece offset low default targets).fixups =
      ⟨offset + 1 + switchPadding offset, offset, default, true⟩ ::
        wideFixups (offset + 1 + switchPadding offset + 12) offset targets := rfl
  simp only [Placed.bytes, hpiece, hfixups, List.foldl_cons, hfirst]
  rw [← List.append_assoc, hrest]
  simp only [switchOperand, List.append_assoc, List.cons_append]

/-! ### Reading it back -/

theorem lastKey_toInt {low : Int32} {n : Nat} (hn : 0 < n)
    (h : low.toInt + n - 1 ≤ 2147483647) : (lastKey low n).toInt = low.toInt + n - 1 := by
  have hlow := low.le_toInt
  have hone : (1 : Int32).toInt = 1 := rfl
  have hsize : Int32.size = 2 ^ 32 := rfl
  rw [lastKey, Int32.toInt_sub, Int32.toInt_add, Int32.toInt_ofNat', hone, hsize,
    Int.add_bmod_bmod, Int.sub_eq_add_neg, Int.bmod_add_bmod,
    Int.bmod_eq_of_le (by omega) (by omega)]
  omega

/-- The keys of a switch are as many as its targets. -/
theorem keys_count {low : Int32} {n : Nat} (hn : 0 < n) (h : low.toInt + n - 1 ≤ 2147483647) :
    ¬ (lastKey low n).toInt < low.toInt ∧ ((lastKey low n).toInt - low.toInt + 1).toNat = n := by
  rw [lastKey_toInt hn h]
  omega

variable {low : Int32} {default : Nat} {targets : List Nat}

theorem table_reads (hvalid : (Statement.tableSwitch low default targets).Valid)
    (hreach : ∀ label ∈ default :: targets, Reaches places offset label)
    (hinside : ∀ label ∈ default :: targets, places label < length) :
    Reads (readOperand pool length offset Opcode.tableswitch)
      (switchOperand places offset low default targets)
      (.switch (places default) (targets.map places)) := by
  obtain ⟨hne, hlast⟩ := hvalid
  obtain ⟨hdefault, htargets⟩ := List.forall_mem_cons.mp hreach
  obtain ⟨hdefaultInside, htargetsInside⟩ := List.forall_mem_cons.mp hinside
  obtain ⟨horder, hcount⟩ := keys_count (List.length_pos_iff.mpr hne) hlast
  have hpadding : Reads (Reader.take (switchPadding offset))
      (List.replicate (switchPadding offset) 0) (List.replicate (switchPadding offset) 0) := by
    have h := Reads.take (List.replicate (switchPadding offset) 0)
    rwa [List.length_replicate] at h
  have hitems : List.Forall₂ (Reads (readTarget length offset))
      (targets.map fun label => Bytes.ofInt32 (distance places offset label))
      (targets.map places) := by
    rw [List.forall₂_map_left_iff, List.forall₂_map_right_iff, List.forall₂_same]
    exact fun label hlabel => readTarget_reads (htargets label hlabel) (htargetsInside label hlabel)
  have hmany := Reads.many hitems
  rw [List.length_map] at hmany
  refine hpadding.bind ((readTarget_reads hdefault hdefaultInside).bind
    ((readInt_reads low).bind ((readInt_reads _).bind ?_)))
  rw [if_neg horder, hcount]
  exact hmany.map (Operand.switch (places default))

theorem table_takes (hvalid : (Statement.tableSwitch low default targets).Valid) :
    Takes (readOperand pool length offset Opcode.tableswitch)
      (switchOperand places offset low default targets)
      fun operand => ∃ first others, operand = .switch first others ∧
        (first : Int) = offset + (distance places offset default).toInt ∧
        List.Forall₂ (fun label (t : Nat) => (t : Int) = offset + (distance places offset label).toInt)
          targets others := by
  obtain ⟨hne, hlast⟩ := hvalid
  obtain ⟨horder, hcount⟩ := keys_count (List.length_pos_iff.mpr hne) hlast
  have hpadding := (Reads.take (List.replicate (switchPadding offset) 0)).takes
  rw [List.length_replicate] at hpadding
  have hitems : List.Forall₂ (fun piece label => Takes (readTarget length offset) piece
      fun t : Nat => (t : Int) = offset + (distance places offset label).toInt)
      (targets.map fun label => Bytes.ofInt32 (distance places offset label)) targets := by
    rw [List.forall₂_map_left_iff, List.forall₂_same]
    exact fun label _ => readTarget_takes _
  have hmany := Takes.many hitems
  refine hpadding.bind fun _ _ => (readTarget_takes _).bind fun first hfirst => ?_
  refine (readInt_reads low).takes.bind ?_
  rintro _ rfl
  refine (readInt_reads _).takes.bind ?_
  rintro _ rfl
  rw [if_neg horder, hcount]
  rw [← List.append_nil (List.flatten _)]
  exact hmany.bind fun others hothers => .pure ⟨first, others, rfl, hfirst, hothers⟩

end ClassAtlas.Assembler
