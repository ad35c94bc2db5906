import ClassAtlas.Proofs.Code.Tiling

/-!
Decoding comes to an end on every code array, and what it reads stays inside: the instructions lie
one behind the other from the first byte to the last, and no jump or switch leads out of the code.
-/

namespace ClassAtlas

/-- The offsets at which control can go on by the operand of an instruction. -/
def Operand.targets : Operand → List Nat
  | .jump target => [target]
  | .switch default targets => default :: targets
  | _ => []

namespace Code

open Reader

/-! ### Targets -/

/-- All targets lie in code of the given length. -/
def Inside (length : Nat) (operand : Operand) : Prop :=
  ∀ t ∈ operand.targets, t < length

theorem inside_of_no_targets {length : Nat} {operand : Operand} (h : operand.targets = []) :
    Inside length operand := by
  intro t ht
  rw [h] at ht
  cases ht

theorem target_yields (length offset : Nat) (delta : Int) :
    Yields (target length offset delta) (· < length) := by
  simp only [target]
  split
  · exact .pure (by omega)
  · exact .fail _

theorem readTarget_yields (length offset : Nat) : Yields (readTarget length offset) (· < length) :=
  .bind fun delta => target_yields length offset delta

theorem readTable_yields (length offset : Nat) :
    Yields (readTable length offset) (Inside length) := by
  refine .bind fun _ => (readTarget_yields length offset).after fun default hdefault => ?_
  refine .bind fun low => .bind fun high => ?_
  split
  · exact .fail _
  · exact ((readTarget_yields length offset).many _).after fun targets htargets =>
      .pure (List.forall_mem_cons.mpr ⟨hdefault, htargets⟩)

theorem readLookup_yields (length offset : Nat) :
    Yields (readLookup length offset) (Inside length) := by
  refine .bind fun _ => (readTarget_yields length offset).after fun default hdefault => ?_
  refine .bind fun pairs => ?_
  split
  · exact .fail _
  · have hpair : Yields (Reader.u32 >>= fun _ => readTarget length offset) (· < length) :=
      .bind fun _ => readTarget_yields length offset
    exact (hpair.many _).after fun targets htargets =>
      .pure (List.forall_mem_cons.mpr ⟨hdefault, htargets⟩)

theorem readWidened_yields (length : Nat) (op : Opcode) :
    Yields (readWidened op) (Inside length) := by
  unfold readWidened
  split
  · exact .bind fun _ => .pure (inside_of_no_targets rfl)
  · split
    · exact .bind fun _ => .bind fun _ => .pure (inside_of_no_targets rfl)
    · exact .fail _

theorem readOperand_yields (pool : Pool) (length offset : Nat) (op : Opcode) :
    Yields (readOperand pool length offset op) (Inside length) := by
  have hstay {operand : Operand} (h : operand.targets = []) :
      Yields (pure operand : Reader Operand) (Inside length) := .pure (inside_of_no_targets h)
  have hjump {t : Nat} (h : t < length) :
      Yields (pure (.jump t) : Reader Operand) (Inside length) :=
    .pure fun _ ht => List.mem_singleton.mp ht ▸ h
  unfold readOperand
  cases op.layout with
  | plain => exact hstay rfl
  | implied => exact hstay rfl
  | byteNumber => exact .bind fun _ => hstay rfl
  | shortNumber => exact .bind fun _ => hstay rfl
  | primitive => exact .bind fun _ => hstay rfl
  | constant => exact .bind fun _ => hstay rfl
  | wideConstant => exact .bind fun _ => hstay rfl
  | slot => exact .bind fun _ => hstay rfl
  | increment => exact .bind fun _ => .bind fun _ => hstay rfl
  | jump => exact .bind fun delta => (target_yields length offset delta).after fun _ => hjump
  | wideJump => exact (readTarget_yields length offset).after fun _ => hjump
  | table => exact readTable_yields length offset
  | lookup => exact readLookup_yields length offset
  | field => exact .bind fun _ => .bind fun _ => hstay rfl
  | invoke kind =>
    refine .bind fun index => ?_
    dsimp only
    split
    · exact .bind fun _ => .bind fun _ => hstay rfl
    · exact .bind fun _ => hstay rfl
  | dynamic => exact .bind fun _ => .bind fun _ => .bind fun _ => hstay rfl
  | type => exact .bind fun _ => .bind fun _ => hstay rfl
  | multiArray => exact .bind fun _ => .bind fun _ => .bind fun _ => hstay rfl
  | widened => exact .fail _
  | invalid => exact .fail _

theorem readInstruction_yields (pool : Pool) (length : Nat) :
    Yields (readInstruction pool length) fun i => Inside length i.operand := by
  unfold readInstruction
  refine .bind fun offset => .bind fun op => ?_
  split
  · exact .bind fun op => (readWidened_yields length op).after fun _ hinside =>
      .bind fun _ => .pure hinside
  · exact (readOperand_yields pool length offset op).after fun _ hinside =>
      .bind fun _ => .pure hinside

/-! ### The whole code -/

/-- What holds of every instruction that can be read holds of all that were. -/
theorem Ends.all {pool : Pool} {length : Nat} {P : Instruction → Prop} {c : Cursor}
    {instructions : List Instruction} (h : Ends pool length c (.ok instructions))
    (hP : Yields (readInstruction pool length) P) : ∀ i ∈ instructions, P i := by
  generalize hresult : Except.ok instructions = result at h
  induction h generalizing instructions with
  | done =>
    cases hresult
    simp
  | failed => cases hresult
  | @more c c' i result _ hread _ ih =>
    cases result with
    | error e => cases hresult
    | ok read =>
      cases hresult
      exact List.forall_mem_cons.mpr ⟨hP _ _ _ hread, ih rfl⟩

/-- Decoding always comes to its one end. If it succeeds, the first instruction starts with the
code, each one ends where the next one starts, and the last one ends with the code; all take a byte
at least, and their targets lie in the code. No offset exceeds 32 bits if the length of the code
does not. -/
theorem decode_inside (label : String) (pool : Pool) {code : Bytes}
    (hlength : code.length < 4294967296) :
    (∀ result, Ends pool code.length (.start label code) result ↔
      decode label pool code = result) ∧
    ∀ instructions, decode label pool code = .ok instructions →
      (instructions = [] ↔ code = []) ∧
      (∀ i, instructions.head? = some i → i.offset = 0) ∧
      (∀ n i j, instructions[n]? = some i → instructions[n + 1]? = some j →
        i.nextOffset = j.offset) ∧
      (∀ i, instructions.getLast? = some i → i.nextOffset = code.length) ∧
      ∀ i ∈ instructions, 1 ≤ i.length ∧ i.nextOffset < 4294967296 ∧
        ∀ t ∈ i.operand.targets, t < code.length := by
  have hends := decode_ends label pool code
  refine ⟨fun result => ⟨hends.unique, fun h => h ▸ hends⟩, fun instructions hdecode => ?_⟩
  have htiles := decode_tiles hdecode
  rw [hdecode] at hends
  refine ⟨?_, fun i hi => htiles.offset_first hi,
    fun n i j hi hj => (htiles.offset_succ hi hj).symm, fun i hi => htiles.nextOffset_last hi,
    fun i hi => ⟨?_, ?_, ?_⟩⟩
  · rw [htiles.eq_nil_iff, eq_comm, List.length_eq_zero_iff]
  · exact Nat.lt_of_add_lt_add_left (htiles.offset_lt_nextOffset hi)
  · exact Nat.lt_of_le_of_lt (htiles.nextOffset_le_stop hi) hlength
  · exact hends.all (readInstruction_yields pool code.length) i hi

/-! ### Code of all widths -/

namespace Widths

/-- A look-up switch with padding, a widened increment, and a jump back to the front. -/
def code : Bytes :=
  [0x1A, 0xAB, 0, 0, 0, 0, 0, 19, 0, 0, 0, 1, 0, 0, 0, 7, 0, 0, 0, 25, 0xC4, 0x84, 0, 0, 0, 1, 0xA7,
    0xFF, 0xE6]

def instructions : List Instruction :=
  [⟨0, 0x1A, 1, false, .slot 0⟩, ⟨1, 0xAB, 19, false, .switch 20 [26]⟩,
    ⟨20, 0x84, 6, true, .slot 0⟩, ⟨26, 0xA7, 3, false, .jump 0⟩]

theorem switch_inside : code.length < 4294967296 ∧
    decode "Widths" .empty code = .ok instructions ∧
    Ends .empty code.length (.start "Widths" code) (.ok instructions) ∧
    (∀ i, instructions.getLast? = some i → i.nextOffset = code.length) ∧
    ∀ i ∈ instructions, ∀ t ∈ i.operand.targets, t < code.length := by
  have hlength : code.length < 4294967296 := by decide
  have hdecode : decode "Widths" .empty code = .ok instructions := by decide
  obtain ⟨hends, hinside⟩ := decode_inside "Widths" .empty hlength
  obtain ⟨_, _, _, hlast, heach⟩ := hinside instructions hdecode
  exact ⟨hlength, hdecode, (hends _).mpr hdecode, hlast, fun i hi => (heach i hi).2.2⟩

end Widths

end Code

end ClassAtlas
