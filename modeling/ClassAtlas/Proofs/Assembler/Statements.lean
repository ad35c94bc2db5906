import ClassAtlas.Proofs.Assembler.Switch

/-!
Statements of all kinds. What each of them lays is decoded as an instruction that means the same, in
the pool as it is left behind, exactly if the distances in it fit.
-/

namespace ClassAtlas

open Reader

namespace Assembler

open Code

variable {places : Nat → Nat} {pool : Pool} {length offset : Nat}

/-- The offset is the place of the label. -/
def Lands (places : Nat → Nat) (label target : Nat) : Prop :=
  target = places label

/-- A piece is decoded as what its statement means if its distances fit, and only then; however it is
decoded, exactly its bytes are taken. -/
structure Encodes (pool : Pool) (length : Nat) (places : Nat → Nat) (x : Placed) : Prop where
  complete : (∀ f ∈ x.piece.fixups, f.Fits places) →
    ∃ i, DecodesAt pool length x.offset (x.bytes places) i ∧
      x.statement.Means pool (Lands places) i
  sound : ∀ label rest i c,
    readInstruction pool length ⟨label, x.bytes places ++ rest, x.offset⟩ = .ok i c →
    c = ⟨label, rest, x.offset + (x.bytes places).length⟩ ∧
      (x.statement.Means pool (Lands places) i → ∀ f ∈ x.piece.fixups, f.Fits places)

/-- Distances that fit anyway are no condition. -/
theorem Encodes.of_fits {x : Placed} (hfits : ∀ f ∈ x.piece.fixups, f.Fits places)
    (h : ∃ i, DecodesAt pool length x.offset (x.bytes places) i ∧
      x.statement.Means pool (Lands places) i) : Encodes pool length places x where
  complete _ := h
  sound label rest i c hi := by
    obtain ⟨j, hj, _⟩ := h
    rw [hj label rest] at hi
    cases hi
    exact ⟨rfl, fun _ => hfits⟩

theorem Encodes.ofBytes {s : Statement} {bytes : Bytes}
    (h : ∃ i, DecodesAt pool length offset bytes i ∧ s.Means pool (Lands places) i) :
    Encodes pool length places ⟨s, offset, .ofBytes bytes⟩ :=
  .of_fits (fun _ hf => absurd hf List.not_mem_nil) h

theorem jump_encodes {op : Opcode} {label : Nat} (hop : op.layout = .jump)
    (hfits : Fixup.Fits places ⟨offset + 1, offset, label, false⟩)
    (hinside : places label < length) :
    Encodes pool length places
      ⟨.jump op label, offset, ⟨[op, 0, 0], [⟨offset + 1, offset, label, false⟩]⟩⟩ := by
  refine .of_fits (by simpa using hfits) ?_
  have hbytes : Placed.bytes places
      ⟨.jump op label, offset, ⟨[op, 0, 0], [⟨offset + 1, offset, label, false⟩]⟩⟩ =
      op :: Bytes.ofInt16 (Int16.ofInt ((places label : Int) - offset)) := by
    have hplace : offset + 1 - offset = 1 := by omega
    simp only [Placed.bytes, List.foldl_cons, List.foldl_nil, Fixup.apply, hplace]
    rfl
  have htarget : (places label : Int) = offset + ((places label : Int) - offset) := by omega
  obtain ⟨i, hi, hopcode, hoperand⟩ := @jump_decodes pool _ _ _ _ _ hop hfits htarget hinside
  rw [hbytes]
  exact ⟨i, hi, hopcode, places label, hoperand, rfl⟩

/-- Two relations between the same lists hold together. -/
theorem forall₂_both {α β : Type} {R S : α → β → Prop} {xs : List α} {ys : List β}
    (hR : List.Forall₂ R xs ys) (hS : List.Forall₂ S xs ys) : ∀ x ∈ xs, ∃ y, R x y ∧ S x y := by
  induction hR with
  | nil => simp
  | cons hx _ ih =>
    cases hS with
    | cons hx' hrest => exact List.forall_mem_cons.mpr ⟨⟨_, hx, hx'⟩, ih hrest⟩

theorem switch_encodes {low : Int32} {default : Nat} {targets : List Nat}
    (hvalid : (Statement.tableSwitch low default targets).Valid)
    (hinside : ∀ label ∈ default :: targets, places label < length) :
    Encodes pool length places
      ⟨.tableSwitch low default targets, offset, switchPiece offset low default targets⟩ where
  complete hfits := by
    have hread := @table_reads _ pool _ _ _ _ _ hvalid (switch_fits_iff.mp hfits) hinside
    rw [switch_bytes]
    refine ⟨_, decodesAt_of_operand (by decide) hread, rfl, _, _, rfl, rfl, ?_⟩
    rw [List.forall₂_map_right_iff, List.forall₂_same]
    exact fun _ _ => rfl
  sound label rest i c hi := by
    rw [switch_bytes] at hi ⊢
    obtain ⟨⟨first, others, hoperand, hfirst, hothers⟩, hc⟩ :=
      takes_of_operand (by decide) (table_takes hvalid) hi
    refine ⟨hc, ?_⟩
    rintro ⟨_, first', others', hoperand', hlands, hall⟩
    rw [hoperand] at hoperand'
    cases hoperand'
    refine switch_fits_iff.mpr (List.forall_mem_cons.mpr ⟨?_, fun target htarget => ?_⟩)
    · rw [Reaches, ← hlands]
      exact hfirst
    · obtain ⟨t, ht, hway⟩ := forall₂_both hall hothers target htarget
      rw [Reaches, ← ht]
      exact hway

/-- Every statement encodes an instruction that means the same, by the pool as it has become. -/
theorem piece_encodes {p q : Pool} {s : Statement} {laid : Piece} (hp : p.Sound) (hs : s.Valid)
    (h : piece p offset s = (laid, q)) :
    p.Grows q fun r => s.emits = true → ∀ places length,
      (∀ label ∈ s.labels, places label < length) →
      (∀ f ∈ laid.fixups, f.wide = false → f.Fits places) →
      Encodes r length places ⟨s, offset, laid⟩ := by
  cases s with
  | plain op =>
    simp only [piece] at h
    cases h
    exact .refl hp fun r _ places length _ _ => .ofBytes (plain_decodes hs)
  | slot op n =>
    simp only [piece] at h
    cases h
    exact .refl hp fun r _ places length _ _ => .ofBytes (slot_decodes n hs)
  | increment n delta =>
    simp only [piece] at h
    cases h
    exact .refl hp fun r _ places length _ _ => .ofBytes (increment_decodes n delta)
  | pushInt value =>
    rcases hint : intBytes p value with ⟨bytes, p₁⟩
    simp only [piece, hint] at h
    cases h
    exact (int_decodes hp hint).imp fun r hr _ places length _ _ => .ofBytes (hr length offset)
  | pushString text =>
    rcases hindex : p.string text with ⟨index, p₁⟩
    simp only [piece, hindex] at h
    cases h
    exact (string_decodes hp hindex).imp fun r hr _ places length _ _ => .ofBytes (hr length offset)
  | jump op label =>
    simp only [piece] at h
    cases h
    refine .refl hp fun r _ places length hinside hfits => ?_
    exact jump_encodes hs (hfits _ List.mem_cons_self rfl) (hinside label List.mem_cons_self)
  | tableSwitch low default targets =>
    simp only [piece] at h
    cases h
    exact .refl hp fun r _ places length hinside _ => switch_encodes hs hinside
  | invoke kind owner name descriptor =>
    rcases hcall : invokeBytes p kind owner name descriptor with ⟨bytes, p₁⟩
    simp only [piece, hcall] at h
    cases h
    exact (invoke_decodes hp hcall).imp fun r hr _ places length _ _ => .ofBytes (hr length offset)
  | invokeDynamic name descriptor =>
    rcases hcall : dynamicBytes p name descriptor with ⟨bytes, p₁⟩
    simp only [piece, hcall] at h
    cases h
    exact (dynamic_decodes hp hcall).imp fun r hr _ places length _ _ => .ofBytes (hr length offset)
  | field op owner name descriptor =>
    rcases hindex : p.fieldRef owner name descriptor with ⟨index, p₁⟩
    simp only [piece, hindex] at h
    cases h
    exact (field_decodes hp hs hindex).imp fun r hr _ places length _ _ =>
      .ofBytes (hr length offset)
  | type op name =>
    rcases hindex : p.classEntry name with ⟨index, p₁⟩
    simp only [piece, hindex] at h
    cases h
    exact (type_decodes hp hs hindex).imp fun r hr _ places length _ _ =>
      .ofBytes (hr length offset)
  | bind label =>
    simp only [piece] at h
    cases h
    exact .refl hp fun r hemits => absurd hemits Bool.false_ne_true
  | handler start stop handler catchType =>
    simp only [piece] at h
    cases h
    exact .refl hp fun r hemits => absurd hemits Bool.false_ne_true

/-! ### Whole layouts -/

variable {p q : Pool} {ss : List Statement} {placed : List Placed}

/-- In the final pool all statements are encoded, wherever the labels come to stand in the code. -/
theorem Laid.encodes (h : Laid p offset ss placed q) (hp : p.Sound) (hvalid : ∀ s ∈ ss, s.Valid) :
    p.Grows q fun r => ∀ places length,
      (∀ s ∈ ss, ∀ label ∈ s.labels, places label < length) →
      (∀ f ∈ placed.flatMap (·.piece.fixups), f.wide = false → f.Fits places) →
      ∀ x ∈ placed, x.statement.emits = true → Encodes r length places x := by
  induction h with
  | nil p offset => exact .refl hp fun r => by simp
  | @cons _ _ _ _ s laid rest placed hpiece _ ih =>
    obtain ⟨hs, hrest⟩ := List.forall_mem_cons.mp hvalid
    have hfirst := piece_encodes hp hs hpiece
    refine (hfirst.trans (ih hfirst.sound hrest)).imp ?_
    rintro r ⟨hone, hall⟩ places length hinside hfits x hx hemits
    obtain ⟨hinside, hothers⟩ := List.forall_mem_cons.mp hinside
    rw [List.flatMap_cons, List.forall_mem_append] at hfits
    rcases List.mem_cons.mp hx with rfl | hx
    · exact hone hemits places length hinside hfits.1
    · exact hall places length hothers hfits.2 x hx hemits

end Assembler

end ClassAtlas
