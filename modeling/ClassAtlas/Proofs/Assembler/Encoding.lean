import ClassAtlas.Code.Decode
import ClassAtlas.Proofs.Assembler.Layout
import ClassAtlas.Proofs.Pool.Interning

/-!
What is laid for a statement is decoded as an instruction that means the same, wherever it lies and
whatever follows it.
-/

namespace ClassAtlas

open Reader

namespace Opcode

/-- What holds of all bytes holds of all opcodes. -/
theorem forall_opcode {P : Opcode → Prop} (h : ∀ n : Fin 256, P (UInt8.ofFin n)) (op : Opcode) :
    P op :=
  h op.toFin

theorem layout_of_takesSlot (op : Opcode) : op.takesSlot = true → op.layout = .slot := by
  revert op
  exact forall_opcode (by decide +kernel)

/-- The short forms of loads and stores do what the long ones do. -/
theorem implied_spec {op base : Opcode} {n : UInt16}
    (hbase : Assembler.impliedBase? op = some base) (hn : n ≤ 3) :
    (op, base) ∈ Statement.shortForms ∧ (base + n.toUInt8).layout = .implied n ∧
      base + n.toUInt8 ≠ wide ∧ (base + n.toUInt8).localWidth = op.localWidth ∧
      (base + n.toUInt8).stackEffect = op.stackEffect := by
  have hall : ∀ op : Opcode, ∀ k : Fin 4, (Assembler.impliedBase? op).all fun base : Opcode =>
      decide ((op, base) ∈ Statement.shortForms ∧
        (base + k.val.toUInt8).layout = .implied k.val.toUInt16 ∧ base + k.val.toUInt8 ≠ wide ∧ (base + k.val.toUInt8).localWidth = op.localWidth ∧
        (base + k.val.toUInt8).stackEffect = op.stackEffect) :=
    forall_opcode (by decide +kernel)
  have hlt : n.toNat < 4 := Nat.lt_succ_of_le (UInt16.le_iff_toNat_le.mp hn)
  have hk := hall op ⟨n.toNat, hlt⟩
  have h16 : n.toNat.toUInt16 = n := UInt16.ofNat_toNat
  rw [hbase, Option.all_some, decide_eq_true_eq, h16] at hk
  exact hk

/-- The opcodes of small numbers have nothing behind them. -/
theorem layout_of_smallInt {op : Opcode} {value : Int} (h : (op, value) ∈ Statement.smallInts) :
    op.layout = .plain := by
  have hall : ∀ x ∈ Statement.smallInts, x.1.layout = .plain := by decide +kernel
  exact hall _ h

end Opcode

namespace Code

variable {pool : Pool} {length offset : Nat} {op : Opcode} {bytes : Bytes}

/-! ### Numbers and targets -/

theorem readShort_reads (v : Int16) : Reads readShort (Bytes.ofInt16 v) v.toInt :=
  (Reads.u16 v.toUInt16).map fun w => w.toInt16.toInt

theorem readInt_reads (v : Int32) : Reads readInt (Bytes.ofInt32 v) v.toInt :=
  (Reads.u32 v.toUInt32).map fun w => w.toInt32.toInt

theorem target_reads {delta : Int} {t : Nat} (ht : (t : Int) = offset + delta) (hlt : t < length) :
    Reads (target length offset delta) [] t := by
  have hinside : (0 : Int) ≤ offset + delta ∧ (offset : Int) + delta < length := by omega
  have hnat : ((offset : Int) + delta).toNat = t := by omega
  unfold target
  rw [if_pos hinside, hnat]
  exact .pure t

theorem target_takes (delta : Int) :
    Takes (target length offset delta) [] fun t => (t : Int) = offset + delta := by
  simp only [target]
  split
  · rename_i h
    exact .pure (Int.toNat_of_nonneg h.1)
  · exact .fail _

theorem readTarget_reads {v : Int32} {t : Nat} (ht : (t : Int) = offset + v.toInt)
    (hlt : t < length) : Reads (readTarget length offset) (Bytes.ofInt32 v) t := by
  have h := (readInt_reads v).bind (target_reads ht hlt)
  rwa [List.append_nil] at h

theorem readTarget_takes (v : Int32) :
    Takes (readTarget length offset) (Bytes.ofInt32 v) fun t => (t : Int) = offset + v.toInt := by
  rw [← List.append_nil (Bytes.ofInt32 v)]
  refine (readInt_reads v).takes.bind ?_
  rintro delta rfl
  exact target_takes v.toInt

/-! ### From operands to instructions -/

/-- The bytes are decoded as the instruction when they lie at the offset. -/
def DecodesAt (pool : Pool) (length offset : Nat) (bytes : Bytes) (i : Instruction) : Prop :=
  ∀ label rest, readInstruction pool length ⟨label, bytes ++ rest, offset⟩ =
    .ok i ⟨label, rest, offset + bytes.length⟩

theorem decodesAt_of_operand {operand : Operand} (hop : op ≠ Opcode.wide)
    (h : Reads (readOperand pool length offset op) bytes operand) :
    DecodesAt pool length offset (op :: bytes) ⟨offset, op, bytes.length + 1, false, operand⟩ := by
  intro label rest
  have hread := h label rest (offset + 1)
  have hend : offset + 1 + bytes.length = offset + (bytes.length + 1) := by omega
  simp only [readInstruction, Reader.position, Reader.u8, bind, EStateM.bind, List.cons_append,
    beq_false_of_ne hop, Bool.false_eq_true, if_false, hread, pure, EStateM.pure,
    List.length_cons, hend, Nat.add_sub_cancel_left]

theorem decodesAt_of_widened {operand : Operand} (h : Reads (readWidened op) bytes operand) :
    DecodesAt pool length offset (Opcode.wide :: op :: bytes)
      ⟨offset, op, bytes.length + 2, true, operand⟩ := by
  intro label rest
  have hread := h label rest (offset + 1 + 1)
  have hend : offset + 1 + 1 + bytes.length = offset + (bytes.length + 1 + 1) := by omega
  simp only [readInstruction, Reader.position, Reader.u8, bind, EStateM.bind, List.cons_append,
    beq_self_eq_true, if_true, hread, pure, EStateM.pure, List.length_cons, hend,
    Nat.add_sub_cancel_left]

theorem takes_of_operand {P : Operand → Prop} (hop : op ≠ Opcode.wide)
    (h : Takes (readOperand pool length offset op) bytes P) {label : String} {rest : Bytes}
    {i : Instruction} {c : Cursor}
    (hi : readInstruction pool length ⟨label, op :: bytes ++ rest, offset⟩ = .ok i c) :
    P i.operand ∧ c = ⟨label, rest, offset + (op :: bytes).length⟩ := by
  unfold readInstruction at hi
  obtain ⟨_, _, hoffset, hi⟩ := bind_eq_ok.mp hi
  cases hoffset
  obtain ⟨_, _, hopcode, hi⟩ := bind_eq_ok.mp hi
  cases hopcode
  rw [beq_false_of_ne hop, if_neg Bool.false_ne_true] at hi
  obtain ⟨operand, d, hoperand, hi⟩ := bind_eq_ok.mp hi
  cases hi
  obtain ⟨hP, rfl⟩ := h _ _ _ _ _ hoperand
  refine ⟨hP, ?_⟩
  rw [List.length_cons, Nat.add_assoc, Nat.add_comm 1]

theorem ne_wide_of_layout {l : Opcode.Layout} (h : op.layout = l) (hl : l ≠ .widened) :
    op ≠ Opcode.wide := by
  rintro rfl
  exact hl h.symm

end Code

namespace Assembler

open Code

variable {pool : Pool} {length offset : Nat}

/-! ### Forms of single instructions -/

theorem slot_decodes {op : Opcode} (n : UInt16) (hop : op.takesSlot = true) :
    ∃ i, DecodesAt pool length offset (slotBytes op n) i ∧ i.operand = .slot n ∧
      Statement.Accesses op n i.opcode ∧ i.opcode.localWidth = op.localWidth ∧
      i.opcode.stackEffect = op.stackEffect := by
  have hlayout := Opcode.layout_of_takesSlot op hop
  have hlong : ∃ i, DecodesAt pool length offset
      (if n ≤ 255 then [op, n.toUInt8] else Opcode.wide :: op :: Bytes.ofUInt16 n) i ∧
      i.operand = .slot n ∧ Statement.Accesses op n i.opcode ∧
      i.opcode.localWidth = op.localWidth ∧ i.opcode.stackEffect = op.stackEffect := by
    by_cases hn : n ≤ 255
    · have hread : Reads (readOperand pool length offset op) [n.toUInt8] (.slot n) := by
        have hbyte := (Reads.u8 n.toUInt8).map fun b => Operand.slot b.toUInt16
        rw [Bytes.toUInt8_toUInt16 hn] at hbyte
        simp only [readOperand, hlayout]
        exact hbyte
      rw [if_pos hn]
      exact ⟨_, decodesAt_of_operand (ne_wide_of_layout hlayout (by decide)) hread, rfl, .inl rfl,
        rfl, rfl⟩
    · have hread : Reads (readWidened op) (Bytes.ofUInt16 n) (.slot n) := by
        rw [readWidened, if_pos hop]
        exact (Reads.u16 n).map Operand.slot
      rw [if_neg hn]
      exact ⟨_, decodesAt_of_widened hread, rfl, .inl rfl, rfl, rfl⟩
  unfold slotBytes
  cases hbase : impliedBase? op with
  | none => exact hlong
  | some base =>
    by_cases hn : n ≤ 3
    · obtain ⟨hform, hshort, hwide, hwidth, heffect⟩ := Opcode.implied_spec hbase hn
      have hread : Reads (readOperand pool length offset (base + n.toUInt8)) [] (.slot n) := by
        simp only [readOperand, hshort]
        exact .pure _
      simp only [if_pos hn]
      exact ⟨_, decodesAt_of_operand hwide hread, rfl, .inr ⟨base, hform, hn, rfl⟩, hwidth, heffect⟩
    · simp only [if_neg hn]
      exact hlong

theorem increment_decodes (n : UInt16) (delta : Int16) :
    ∃ i, DecodesAt pool length offset (incrementBytes n delta) i ∧
      i.opcode = Opcode.iinc ∧ i.operand = .slot n := by
  unfold incrementBytes
  split
  · rename_i h
    have hread : Reads (readOperand pool length offset Opcode.iinc)
        ([n.toUInt8] ++ [delta.toUInt16.toUInt8]) (.slot n) := by
      have hstep := (Reads.u8 delta.toUInt16.toUInt8).map fun _ => Operand.slot n.toUInt8.toUInt16
      have hboth : Reads (do
          let slot ← Reader.u8
          let _ ← Reader.u8
          return Operand.slot slot.toUInt16) ([n.toUInt8] ++ [delta.toUInt16.toUInt8])
          (.slot n.toUInt8.toUInt16) := (Reads.u8 n.toUInt8).bind hstep
      rwa [Bytes.toUInt8_toUInt16 h.1] at hboth
    exact ⟨_, decodesAt_of_operand (by decide) hread, rfl, rfl⟩
  · have hread : Reads (readWidened Opcode.iinc) (Bytes.ofUInt16 n ++ Bytes.ofInt16 delta)
        (.slot n) :=
      (Reads.u16 n).bind ((Reads.u16 delta.toUInt16).map fun _ => Operand.slot n)
    exact ⟨_, decodesAt_of_widened hread, rfl, rfl⟩

theorem constant_decodes (index : UInt16) :
    ∃ i, DecodesAt pool length offset (constantBytes index) i ∧
      (i.opcode = Opcode.ldc ∨ i.opcode = Opcode.ldcWide) ∧ i.operand = .constant index := by
  unfold constantBytes
  by_cases h : index ≤ 255
  · have hread : Reads (readOperand pool length offset Opcode.ldc) [index.toUInt8]
        (.constant index) := by
      have hbyte := (Reads.u8 index.toUInt8).map fun b => Operand.constant b.toUInt16
      rwa [Bytes.toUInt8_toUInt16 h] at hbyte
    rw [if_pos h]
    exact ⟨_, decodesAt_of_operand (by decide) hread, .inl rfl, rfl⟩
  · have hread : Reads (readOperand pool length offset Opcode.ldcWide) (Bytes.ofUInt16 index)
        (.constant index) :=
      (Reads.u16 index).map Operand.constant
    rw [if_neg h]
    exact ⟨_, decodesAt_of_operand (by decide) hread, .inr rfl, rfl⟩

theorem int_decodes {p q : Pool} {value : Int32} {bytes : Bytes} (hp : p.Sound)
    (h : intBytes p value = (bytes, q)) :
    p.Grows q fun r => ∀ length offset, ∃ i, DecodesAt r length offset bytes i ∧
      Statement.PushesInt r value i := by
  simp only [intBytes] at h
  split at h
  · rename_i hsmall
    cases h
    refine .refl hp fun r length offset => ?_
    have hmem : ((3 + value.toInt).toNat.toUInt8, value.toInt) ∈ Statement.smallInts := by
      obtain h | h | h | h | h | h | h : value.toInt = -1 ∨ value.toInt = 0 ∨ value.toInt = 1 ∨
        value.toInt = 2 ∨ value.toInt = 3 ∨ value.toInt = 4 ∨ value.toInt = 5 := by omega
      all_goals rw [h]; decide
    have hlayout := Opcode.layout_of_smallInt hmem
    have hread : Reads (readOperand r length offset (3 + value.toInt).toNat.toUInt8) [] .none := by
      simp only [readOperand, hlayout]
      exact .pure _
    exact ⟨_, decodesAt_of_operand (ne_wide_of_layout hlayout (by decide)) hread, .inl ⟨hmem, rfl⟩⟩
  · split at h
    · rename_i hbyte
      cases h
      refine .refl hp fun r length offset => ?_
      have hread : Reads (readOperand r length offset Opcode.bipush) [value.toUInt32.toUInt8]
          (.immediate value.toInt) := by
        have hnumber := (Reads.u8 value.toUInt32.toUInt8).map fun b =>
          Operand.immediate b.toInt8.toInt
        rwa [Bytes.toInt_lowByte hbyte.1 hbyte.2] at hnumber
      exact ⟨_, decodesAt_of_operand (by decide) hread, .inr (.inl ⟨.inl rfl, rfl⟩)⟩
    · split at h
      · rename_i hshort
        cases h
        refine .refl hp fun r length offset => ?_
        have hread : Reads (readOperand r length offset Opcode.sipush)
            (Bytes.ofUInt16 value.toUInt32.toUInt16) (.immediate value.toInt) := by
          have hnumber := (readShort_reads value.toUInt32.toUInt16.toInt16).map Operand.immediate
          rwa [Bytes.toInt_lowBytes hshort.1 hshort.2] at hnumber
        exact ⟨_, decodesAt_of_operand (by decide) hread, .inr (.inl ⟨.inr rfl, rfl⟩)⟩
      · rcases hindex : p.integer value with ⟨index, p₁⟩
        rw [hindex] at h
        cases h
        refine (Pool.integer_spec hp hindex).imp fun r hr length offset => ?_
        obtain ⟨i, hi, hopcode, hoperand⟩ := constant_decodes index
        exact ⟨i, hi, .inr (.inr ⟨index, hopcode, hoperand, hr⟩)⟩

theorem string_decodes {p q : Pool} {text : String} {index : UInt16} (hp : p.Sound)
    (h : p.string text = (index, q)) :
    p.Grows q fun r => ∀ length offset, ∃ i, DecodesAt r length offset (constantBytes index) i ∧
      Statement.PushesString r text i := by
  refine (Pool.string_spec hp h).imp ?_
  rintro r ⟨entry, hentry, htext⟩ length offset
  obtain ⟨i, hi, hopcode, hoperand⟩ := constant_decodes index
  exact ⟨i, hi, index, entry, hopcode, hoperand, hentry, htext⟩

theorem dynamic_decodes {p q : Pool} {name descriptor : String} {bytes : Bytes} (hp : p.Sound)
    (h : dynamicBytes p name descriptor = (bytes, q)) :
    p.Grows q fun r => ∀ length offset, ∃ i, DecodesAt r length offset bytes i ∧
      i.opcode = Opcode.invokedynamic ∧ i.operand = .dynamic name descriptor := by
  rcases hnat : p.nameAndType name descriptor with ⟨nat, p₁⟩
  rcases hindex : p₁.intern (.invokeDynamic 0 nat) with ⟨index, p₂⟩
  simp only [dynamicBytes, hnat, hindex] at h
  cases h
  refine (Pool.invokeDynamic_spec hp hnat hindex).imp fun r hr length offset => ?_
  have hread : Reads (readOperand r length offset Opcode.invokedynamic)
      (Bytes.ofUInt16 index ++ Bytes.ofUInt16 0) (.dynamic name descriptor) := by
    refine (Reads.u16 index).bind ?_
    intro label rest position
    simp only [(Reads.u16 0).bind_eq, hr]
    rfl
  exact ⟨_, decodesAt_of_operand (by decide) hread, rfl, rfl⟩

/-- An index is read and looked up, with nothing behind it. -/
theorem indexed_reads {α : Type} {look : UInt16 → Except DecodeError α} {index : UInt16} {a : α}
    (h : look index = .ok a) (f : α → Operand) :
    Reads (do
      let index ← Reader.u16
      return f (← Reader.liftLocated (look index))) (Bytes.ofUInt16 index) (f a) := by
  rw [← List.append_nil (Bytes.ofUInt16 index)]
  exact (Reads.u16 index).bind ((Reads.liftLocated h).map f)

theorem invoke_decodes {p q : Pool} {kind : InvokeKind} {owner name descriptor : String}
    {bytes : Bytes} (hp : p.Sound) (h : invokeBytes p kind owner name descriptor = (bytes, q)) :
    p.Grows q fun r => ∀ length offset, ∃ i, DecodesAt r length offset bytes i ∧
      i.opcode = invokeOpcode kind ∧ i.operand = if kind = .dynamic then .dynamic name descriptor
        else .invoke ⟨kind, owner, name, descriptor, kind = .interface⟩ := by
  rcases hindex : p.methodRef owner name descriptor (kind = .interface) with ⟨index, p₁⟩
  have hmember := Pool.methodRef_spec hp hindex
  simp only [invokeBytes, hindex] at h
  by_cases hdynamic : kind = .dynamic
  · rw [if_pos hdynamic] at h
    subst hdynamic
    refine (hmember.trans (dynamic_decodes hmember.sound h)).imp ?_
    rintro r ⟨_, hr⟩ length offset
    exact hr length offset
  · rw [if_neg hdynamic] at h
    cases h
    refine hmember.imp fun r hr length offset => ?_
    have hlayout : (invokeOpcode kind).layout = .invoke kind := by
      cases kind <;> first | rfl | exact absurd rfl hdynamic
    rw [if_neg hdynamic]
    refine ⟨_, decodesAt_of_operand (ne_wide_of_layout hlayout (by simp)) ?_, rfl, rfl⟩
    simp only [readOperand, hlayout]
    by_cases hinterface : kind = .interface
    · simp only [hinterface, if_true, decide_true] at hr ⊢
      refine (Reads.u16 index).bind ?_
      intro label rest position
      cases hslots : MethodType.parse descriptor <;>
        simp only [bind, EStateM.bind, Reader.u16, List.cons_append, List.nil_append, hr,
          Reader.liftLocated] <;> rfl
    · simp only [hinterface, if_false, decide_false, List.append_nil] at hr ⊢
      exact indexed_reads hr fun m => Operand.invoke ⟨kind, m.owner, m.name, m.descriptor, m.interface⟩

theorem field_decodes {p q : Pool} {op : Opcode} {owner name descriptor : String}
    {index : UInt16} (hp : p.Sound) (hop : op.layout = .field)
    (h : p.fieldRef owner name descriptor = (index, q)) :
    p.Grows q fun r => ∀ length offset, ∃ i,
      DecodesAt r length offset (op :: Bytes.ofUInt16 index) i ∧ i.opcode = op ∧
        i.operand = .field owner name descriptor := by
  refine (Pool.fieldRef_spec hp h).imp fun r hr length offset => ?_
  refine ⟨_, decodesAt_of_operand (ne_wide_of_layout hop (by decide)) ?_, rfl, rfl⟩
  simp only [readOperand, hop]
  exact indexed_reads hr fun m => Operand.field m.owner m.name m.descriptor

theorem type_decodes {p q : Pool} {op : Opcode} {name : String} {index : UInt16} (hp : p.Sound)
    (hop : op.layout = .type) (h : p.classEntry name = (index, q)) :
    p.Grows q fun r => ∀ length offset, ∃ i,
      DecodesAt r length offset (op :: Bytes.ofUInt16 index) i ∧ i.opcode = op ∧
        i.operand = .type name := by
  refine (Pool.classEntry_spec hp h).imp ?_
  rintro r ⟨_, hr⟩ length offset
  refine ⟨_, decodesAt_of_operand (ne_wide_of_layout hop (by decide)) ?_, rfl, rfl⟩
  simp only [readOperand, hop]
  exact indexed_reads hr Operand.type

theorem plain_decodes {op : Opcode}
    (hop : op.layout = .plain ∨ ∃ n, op.layout = .implied n) :
    ∃ i, DecodesAt pool length offset [op] i ∧ i.opcode = op ∧ i.wide = false ∧
      ((op.layout = .plain ∧ i.operand = .none) ∨
        ∃ n, op.layout = .implied n ∧ i.operand = .slot n) := by
  obtain hplain | ⟨n, himplied⟩ := hop
  · have hread : Reads (readOperand pool length offset op) [] .none := by
      simp only [readOperand, hplain]
      exact .pure _
    exact ⟨_, decodesAt_of_operand (ne_wide_of_layout hplain (by decide)) hread, rfl, rfl,
      .inl ⟨hplain, rfl⟩⟩
  · have hread : Reads (readOperand pool length offset op) [] (.slot n) := by
      simp only [readOperand, himplied]
      exact .pure _
    exact ⟨_, decodesAt_of_operand (ne_wide_of_layout himplied (by simp)) hread, rfl, rfl,
      .inr ⟨n, himplied, rfl⟩⟩

theorem jump_decodes {op : Opcode} {delta : Int} {t : Nat} (hop : op.layout = .jump)
    (hfits : -32768 ≤ delta ∧ delta ≤ 32767) (ht : (t : Int) = offset + delta) (hlt : t < length) :
    ∃ i, DecodesAt pool length offset (op :: Bytes.ofInt16 (Int16.ofInt delta)) i ∧
      i.opcode = op ∧ i.operand = .jump t := by
  have hdelta : (Int16.ofInt delta).toInt = delta :=
    Int16.toInt_ofInt_of_le hfits.1 (Int.lt_add_one_of_le hfits.2)
  have hread : Reads (readOperand pool length offset op) (Bytes.ofInt16 (Int16.ofInt delta))
      (.jump t) := by
    have hshort := readShort_reads (Int16.ofInt delta)
    rw [hdelta] at hshort
    simp only [readOperand, hop]
    rw [← List.append_nil (Bytes.ofInt16 _)]
    exact hshort.bind ((target_reads ht hlt).map Operand.jump)
  exact ⟨_, decodesAt_of_operand (ne_wide_of_layout hop (by decide)) hread, rfl, rfl⟩

end Assembler

end ClassAtlas
