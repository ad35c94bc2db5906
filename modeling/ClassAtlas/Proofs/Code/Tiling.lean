import ClassAtlas.Code.Decode
import ClassAtlas.Proofs.Bytes.Reading

/-!
Decoded instructions tile the code: each one starts where the one before it ends, the first at
offset zero, and the last ends with the code.
-/

namespace ClassAtlas.Code

open Reader

/-- The instructions lie one behind the other from the first offset to the second. -/
def Tiles : Nat → List Instruction → Nat → Prop
  | start, [], stop => start = stop
  | start, i :: rest, stop => i.offset = start ∧ 0 < i.length ∧ Tiles i.nextOffset rest stop

/-! ### What one instruction takes -/

theorem readShort_composed : Composed readShort :=
  Composed.u16.bind fun _ => .pure _

theorem readInt_composed : Composed readInt :=
  Composed.u32.bind fun _ => .pure _

theorem target_composed (length offset : Nat) (delta : Int) :
    Composed (target length offset delta) := by
  simp only [target]
  split
  · exact .pure _
  · exact .fail _

theorem readTarget_composed (length offset : Nat) : Composed (readTarget length offset) :=
  readInt_composed.bind fun delta => target_composed length offset delta

theorem readTable_composed (length offset : Nat) : Composed (readTable length offset) := by
  refine (Composed.take _).bind fun _ => (readTarget_composed length offset).bind fun default => ?_
  refine readInt_composed.bind fun low => readInt_composed.bind fun high => ?_
  split
  · exact .fail _
  · exact ((readTarget_composed length offset).many _).bind fun _ => .pure _

theorem readLookup_composed (length offset : Nat) : Composed (readLookup length offset) := by
  refine (Composed.take _).bind fun _ => (readTarget_composed length offset).bind fun default => ?_
  refine readInt_composed.bind fun pairs => ?_
  split
  · exact .fail _
  · have hpair : Composed (Reader.u32 >>= fun _ => readTarget length offset) :=
      Composed.u32.bind fun _ => readTarget_composed length offset
    exact (hpair.many _).bind fun _ => .pure _

theorem readWidened_composed (op : Opcode) : Composed (readWidened op) := by
  unfold readWidened
  split
  · exact Composed.u16.bind fun _ => .pure _
  · split
    · exact Composed.u16.bind fun _ => Composed.u16.bind fun _ => .pure _
    · exact .fail _

theorem readOperand_composed (pool : Pool) (length offset : Nat) (op : Opcode) :
    Composed (readOperand pool length offset op) := by
  unfold readOperand
  cases op.layout with
  | plain => exact .pure _
  | implied => exact .pure _
  | byteNumber => exact Composed.u8.bind fun _ => .pure _
  | shortNumber => exact readShort_composed.bind fun _ => .pure _
  | primitive => exact Composed.u8.bind fun _ => .pure _
  | constant => exact Composed.u8.bind fun _ => .pure _
  | wideConstant => exact Composed.u16.bind fun _ => .pure _
  | slot => exact Composed.u8.bind fun _ => .pure _
  | increment => exact Composed.u8.bind fun _ => Composed.u8.bind fun _ => .pure _
  | jump =>
    exact readShort_composed.bind fun delta =>
      (target_composed length offset delta).bind fun _ => .pure _
  | wideJump => exact (readTarget_composed length offset).bind fun _ => .pure _
  | table => exact readTable_composed length offset
  | lookup => exact readLookup_composed length offset
  | field => exact Composed.u16.bind fun _ => (Composed.liftLocated _).bind fun _ => .pure _
  | invoke kind =>
    have hmember (index : UInt16) : Composed (do
        let m ← Reader.liftLocated (pool.memberRef index)
        return Operand.invoke ⟨kind, m.owner, m.name, m.descriptor, m.interface⟩) :=
      (Composed.liftLocated _).bind fun _ => .pure _
    refine Composed.u16.bind fun index => ?_
    dsimp only
    split
    · exact Composed.u16.bind fun _ => hmember index
    · exact hmember index
  | dynamic =>
    exact Composed.u16.bind fun _ => Composed.u16.bind fun _ =>
      (Composed.liftLocated _).bind fun _ => .pure _
  | type => exact Composed.u16.bind fun _ => (Composed.liftLocated _).bind fun _ => .pure _
  | multiArray =>
    exact Composed.u16.bind fun _ => Composed.u8.bind fun _ =>
      (Composed.liftLocated _).bind fun _ => .pure _
  | widened => exact .fail _
  | invalid => exact .fail _

/-- An instruction starts at the cursor, takes a byte at least and ends where the cursor stops. -/
theorem readInstruction_extent {pool : Pool} {length : Nat} {c c' : Cursor} {i : Instruction}
    (h : readInstruction pool length c = .ok i c') :
    i.offset = c.position ∧ i.nextOffset = c'.position ∧ 0 < i.length ∧ c.LeadsTo c' := by
  unfold readInstruction at h
  obtain ⟨offset, d, hoffset, h⟩ := bind_eq_ok.mp h
  cases hoffset
  obtain ⟨op, c₁, hop, h⟩ := bind_eq_ok.mp h
  have hopcode : c.LeadsTo c₁ := Advances.u8 _ _ _ hop
  have hbyte : c₁.position = c.position + 1 := u8_position hop
  -- the rest of the instruction is a further opcode and its operand, or the operand alone
  have hrest : ∃ operand opcode wide, c₁.LeadsTo c' ∧
      i = ⟨c.position, opcode, c'.position - c.position, wide, operand⟩ := by
    split at h
    · obtain ⟨opcode, c₂, hopcode, h⟩ := bind_eq_ok.mp h
      obtain ⟨operand, c₃, hoperand, h⟩ := bind_eq_ok.mp h
      cases h
      exact ⟨operand, opcode, true, (Advances.u8 _ _ _ hopcode).trans
        ((readWidened_composed _).advances _ _ _ hoperand), rfl⟩
    · obtain ⟨operand, c₂, hoperand, h⟩ := bind_eq_ok.mp h
      cases h
      exact ⟨operand, op, false, (readOperand_composed _ _ _ _).advances _ _ _ hoperand, rfl⟩
  obtain ⟨operand, opcode, wide, hto, rfl⟩ := hrest
  have hle := hto.le
  refine ⟨rfl, ?_, ?_, hopcode.trans hto⟩
  · simp only [Instruction.nextOffset]
    omega
  · simp only
    omega

/-! ### What a code array takes -/

/-- Instructions are read as long as code is left, and this comes to a result: there is no more
code, or an instruction cannot be read. -/
inductive Ends (pool : Pool) (length : Nat) :
    Cursor → Except DecodeError (List Instruction) → Prop
  | done {c : Cursor} (hend : c.rest = []) : Ends pool length c (.ok [])
  | failed {c c' : Cursor} {e : DecodeError} (hleft : c.rest ≠ [])
    (hread : readInstruction pool length c = .error e c') : Ends pool length c (.error e)
  | more {c c' : Cursor} {i : Instruction} {result : Except DecodeError (List Instruction)}
    (hleft : c.rest ≠ []) (hread : readInstruction pool length c = .ok i c')
    (hrest : Ends pool length c' result) : Ends pool length c (result.map (i :: ·))

/-- Every instruction takes a byte at least, so as many rounds as there are bytes are enough. -/
theorem readFrom_ends {pool : Pool} {length steps : Nat} {c : Cursor}
    (hsteps : c.rest.length ≤ steps) (acc : List Instruction) :
    ∃ result, Ends pool length c result ∧
      (readFrom pool length steps acc).outcome c = result.map (acc.reverse ++ ·) := by
  induction steps generalizing c acc with
  | zero =>
    have hend : c.rest = [] := List.length_eq_zero_iff.mp (Nat.le_zero.mp hsteps)
    exact ⟨_, .done hend, by simp [outcome, readFrom, Except.map]⟩
  | succ steps ih =>
    cases hrest : c.rest with
    | nil => exact ⟨_, .done hrest, by simp [outcome, readFrom, hrest, Except.map]⟩
    | cons b rest =>
      have hleft : c.rest ≠ [] := hrest ▸ List.cons_ne_nil b rest
      cases hread : readInstruction pool length c with
      | error e d =>
        exact ⟨_, .failed hleft hread, by simp only [outcome, readFrom, hrest, hread, Except.map]⟩
      | ok i d =>
        obtain ⟨hoffset, hnext, hpos, hto⟩ := readInstruction_extent hread
        have htotal := hto.total
        rw [Instruction.nextOffset] at hnext
        obtain ⟨result, hends, hresult⟩ := ih (c := d) (by omega) (i :: acc)
        refine ⟨_, .more hleft hread hends, ?_⟩
        calc (readFrom pool length (steps + 1) acc).outcome c
          _ = (readFrom pool length steps (i :: acc)).outcome d := by
            simp only [outcome, readFrom, hrest, hread]
          _ = result.map ((i :: acc).reverse ++ ·) := hresult
          _ = (result.map (i :: ·)).map (acc.reverse ++ ·) := by
            cases result <;> simp [Except.map]

theorem Ends.unique {pool : Pool} {length : Nat} {c : Cursor}
    {result result' : Except DecodeError (List Instruction)} (h : Ends pool length c result)
    (h' : Ends pool length c result') : result = result' := by
  induction h generalizing result' with
  | done hend =>
    cases h' with
    | done => rfl
    | failed hleft => exact absurd hend hleft
    | more hleft => exact absurd hend hleft
  | failed hleft hread =>
    cases h' with
    | done hend => exact absurd hend hleft
    | failed _ hread' =>
      rw [hread] at hread'
      cases hread'
      rfl
    | more _ hread' =>
      rw [hread] at hread'
      cases hread'
  | more hleft hread _ ih =>
    cases h' with
    | done hend => exact absurd hend hleft
    | failed _ hread' =>
      rw [hread] at hread'
      cases hread'
    | more _ hread' hrest' =>
      rw [hread] at hread'
      cases hread'
      rw [ih hrest']

theorem Ends.tiles {pool : Pool} {length : Nat} {c : Cursor} {instructions : List Instruction}
    (h : Ends pool length c (.ok instructions)) :
    Tiles c.position instructions (c.position + c.rest.length) := by
  generalize hresult : Except.ok instructions = result at h
  induction h generalizing instructions with
  | done hend =>
    cases hresult
    simp [Tiles, hend]
  | failed => cases hresult
  | @more c c' i result hleft hread hrest ih =>
    cases result with
    | error e => cases hresult
    | ok read =>
      cases hresult
      obtain ⟨hoffset, hnext, hpos, hto⟩ := readInstruction_extent hread
      refine ⟨hoffset, hpos, ?_⟩
      rw [hnext, ← hto.total]
      exact ih rfl

theorem decode_ends (label : String) (pool : Pool) (code : Bytes) :
    Ends pool code.length (.start label code) (decode label pool code) := by
  have hsteps : (Cursor.start label code).rest.length ≤ code.length := Nat.le_refl _
  obtain ⟨result, hends, hresult⟩ :=
    @readFrom_ends pool code.length code.length (.start label code) hsteps []
  have hdecode : decode label pool code = result := by
    rw [decode, run_eq_outcome, hresult]
    cases result <;> rfl
  rwa [hdecode]

/-- Decoded instructions tile the code array. -/
theorem decode_tiles {label : String} {pool : Pool} {code : Bytes}
    {instructions : List Instruction} (h : decode label pool code = .ok instructions) :
    Tiles 0 instructions code.length := by
  have hends := decode_ends label pool code
  rw [h] at hends
  simpa [Cursor.start] using hends.tiles

/-! ### Offsets of a tiling -/

theorem Tiles.offset_ge {start stop : Nat} {instructions : List Instruction}
    (h : Tiles start instructions stop) : ∀ i ∈ instructions, start ≤ i.offset := by
  induction instructions generalizing start with
  | nil => simp
  | cons i rest ih =>
    obtain ⟨hoffset, hpos, hrest⟩ := h
    intro j hj
    rcases List.mem_cons.mp hj with rfl | hj
    · exact Nat.le_of_eq hoffset.symm
    · have := ih hrest j hj
      rw [Instruction.nextOffset] at this
      omega

/-- No two instructions start at the same offset. -/
theorem Tiles.nodup {start stop : Nat} {instructions : List Instruction}
    (h : Tiles start instructions stop) : (instructions.map (·.offset)).Nodup := by
  induction instructions generalizing start with
  | nil => exact List.nodup_nil
  | cons i rest ih =>
    obtain ⟨hoffset, hpos, hrest⟩ := h
    refine List.nodup_cons.mpr ⟨?_, ih hrest⟩
    intro hmem
    obtain ⟨j, hj, heq⟩ := List.mem_map.mp hmem
    have hge : i.nextOffset ≤ j.offset := hrest.offset_ge j hj
    have hlt : i.offset < i.nextOffset := Nat.lt_add_of_pos_right hpos
    have heq : j.offset = i.offset := heq
    omega

/-- An instruction ends where the next one starts. -/
theorem Tiles.offset_succ {start stop n : Nat} {instructions : List Instruction}
    {i j : Instruction} (h : Tiles start instructions stop) (hi : instructions[n]? = some i)
    (hj : instructions[n + 1]? = some j) : j.offset = i.nextOffset := by
  induction instructions generalizing start n with
  | nil => cases hi
  | cons x rest ih =>
    obtain ⟨_, _, hrest⟩ := h
    cases n with
    | zero =>
      cases hi
      cases rest with
      | nil => cases hj
      | cons y rest =>
        cases hj
        exact hrest.1
    | succ n => exact ih hrest hi hj

/-- An instruction ends before any later one starts. -/
theorem Tiles.nextOffset_le {start stop n m : Nat} {instructions : List Instruction}
    {i j : Instruction} (h : Tiles start instructions stop) (hi : instructions[n]? = some i)
    (hj : instructions[m]? = some j) (hlt : n < m) : i.nextOffset ≤ j.offset := by
  induction instructions generalizing start n m with
  | nil => cases hi
  | cons x rest ih =>
    obtain ⟨_, _, hrest⟩ := h
    obtain ⟨m, rfl⟩ := Nat.exists_eq_add_one_of_ne_zero (Nat.ne_zero_of_lt hlt)
    cases n with
    | zero =>
      cases hi
      exact hrest.offset_ge j (List.mem_of_getElem? hj)
    | succ n => exact ih hrest hi hj (Nat.lt_of_succ_lt_succ hlt)

theorem Tiles.offset_lt_nextOffset {start stop : Nat} {instructions : List Instruction}
    {i : Instruction} (h : Tiles start instructions stop) (hi : i ∈ instructions) :
    i.offset < i.nextOffset := by
  induction instructions generalizing start with
  | nil => cases hi
  | cons x rest ih =>
    obtain ⟨_, hpos, hrest⟩ := h
    rcases List.mem_cons.mp hi with rfl | hi
    · exact Nat.lt_add_of_pos_right hpos
    · exact ih hrest hi

theorem Tiles.start_le {start stop : Nat} {instructions : List Instruction}
    (h : Tiles start instructions stop) : start ≤ stop := by
  induction instructions generalizing start with
  | nil => exact Nat.le_of_eq h
  | cons i rest ih =>
    obtain ⟨hoffset, hpos, hrest⟩ := h
    have := ih hrest
    rw [Instruction.nextOffset] at this
    omega

/-- Every instruction starts before the end. -/
theorem Tiles.offset_lt {start stop : Nat} {instructions : List Instruction} {i : Instruction}
    (h : Tiles start instructions stop) (hi : i ∈ instructions) : i.offset < stop := by
  induction instructions generalizing start with
  | nil => cases hi
  | cons x rest ih =>
    rcases List.mem_cons.mp hi with rfl | hi
    · exact Nat.lt_of_lt_of_le (h.offset_lt_nextOffset List.mem_cons_self) h.2.2.start_le
    · exact ih h.2.2 hi

/-- Every instruction ends at the end at the latest. -/
theorem Tiles.nextOffset_le_stop {start stop : Nat} {instructions : List Instruction}
    {i : Instruction} (h : Tiles start instructions stop) (hi : i ∈ instructions) :
    i.nextOffset ≤ stop := by
  induction instructions generalizing start with
  | nil => cases hi
  | cons x rest ih =>
    rcases List.mem_cons.mp hi with rfl | hi
    · exact h.2.2.start_le
    · exact ih h.2.2 hi

/-- Only nothing is tiled by no instructions. -/
theorem Tiles.eq_nil_iff {start stop : Nat} {instructions : List Instruction}
    (h : Tiles start instructions stop) : instructions = [] ↔ start = stop := by
  cases instructions with
  | nil => exact iff_of_true rfl h
  | cons i rest =>
    have hlt := h.offset_lt_nextOffset List.mem_cons_self
    have hle := h.nextOffset_le_stop List.mem_cons_self
    have hstart := h.1
    exact iff_of_false (List.cons_ne_nil _ _) (by omega)

/-- The first instruction starts at the start. -/
theorem Tiles.offset_first {start stop : Nat} {instructions : List Instruction}
    {i : Instruction} (h : Tiles start instructions stop) (hi : instructions.head? = some i) :
    i.offset = start := by
  cases instructions with
  | nil => cases hi
  | cons x rest =>
    cases hi
    exact h.1

/-- The last instruction ends at the end. -/
theorem Tiles.nextOffset_last {start stop : Nat} {instructions : List Instruction}
    {i : Instruction} (h : Tiles start instructions stop) (hi : instructions.getLast? = some i) :
    i.nextOffset = stop := by
  induction instructions generalizing start with
  | nil => cases hi
  | cons x rest ih =>
    cases rest with
    | nil =>
      cases hi
      exact h.2.2
    | cons y rest => exact ih h.2.2 (by rwa [List.getLast?_cons_cons] at hi)

/-- Later instructions start at higher offsets. -/
theorem Tiles.offset_le_iff {start stop n m : Nat} {instructions : List Instruction}
    {i j : Instruction} (h : Tiles start instructions stop) (hi : instructions[n]? = some i)
    (hj : instructions[m]? = some j) : i.offset ≤ j.offset ↔ n ≤ m := by
  rcases Nat.lt_trichotomy n m with hlt | rfl | hlt
  · have := h.nextOffset_le hi hj hlt
    have := h.offset_lt_nextOffset (List.mem_of_getElem? hi)
    omega
  · rw [hi, Option.some_inj] at hj
    rw [hj]
    exact iff_of_true (Nat.le_refl _) (Nat.le_refl _)
  · have := h.nextOffset_le hj hi hlt
    have := h.offset_lt_nextOffset (List.mem_of_getElem? hj)
    omega

/-- Two stretches of instructions meet at an offset. -/
theorem Tiles.append_iff {start stop : Nat} {front back : List Instruction} :
    Tiles start (front ++ back) stop ↔
      ∃ middle, Tiles start front middle ∧ Tiles middle back stop := by
  induction front generalizing start with
  | nil => simp [Tiles]
  | cons i front ih => simp [Tiles, ih, and_assoc]

/-- Instructions at different places start at different offsets. -/
theorem Tiles.place_unique {start stop n m : Nat} {instructions : List Instruction}
    {i j : Instruction} (h : Tiles start instructions stop) (hi : instructions[n]? = some i)
    (hj : instructions[m]? = some j) (heq : i.offset = j.offset) : n = m := by
  have hipos := h.offset_lt_nextOffset (List.mem_of_getElem? hi)
  have hjpos := h.offset_lt_nextOffset (List.mem_of_getElem? hj)
  rcases Nat.lt_trichotomy n m with hlt | rfl | hlt
  · have := h.nextOffset_le hi hj hlt
    omega
  · rfl
  · have := h.nextOffset_le hj hi hlt
    omega

/-- Only the next instruction starts where one ends. -/
theorem Tiles.offset_eq_nextOffset_iff {start stop n m : Nat} {instructions : List Instruction}
    {i j : Instruction} (h : Tiles start instructions stop) (hi : instructions[n]? = some i)
    (hj : instructions[m]? = some j) : j.offset = i.nextOffset ↔ m = n + 1 := by
  constructor
  · intro heq
    have hipos := h.offset_lt_nextOffset (List.mem_of_getElem? hi)
    have hlt : n < m := by
      by_contra hle
      rcases Nat.eq_or_lt_of_le (Nat.le_of_not_lt hle) with rfl | hlt
      · rw [hi, Option.some_inj] at hj
        subst hj
        omega
      · have := h.nextOffset_le hj hi hlt
        have := h.offset_lt_nextOffset (List.mem_of_getElem? hj)
        omega
    have hnext : n + 1 < instructions.length :=
      Nat.lt_of_le_of_lt hlt (List.getElem?_eq_some_iff.mp hj).1
    refine h.place_unique hj (List.getElem?_eq_getElem hnext) ?_
    rw [heq, h.offset_succ hi (List.getElem?_eq_getElem hnext)]
  · rintro rfl
    exact h.offset_succ hi hj

/-- Code that is not empty starts with an instruction. -/
theorem Tiles.head {stop : Nat} {instructions : List Instruction}
    (h : Tiles 0 instructions stop) (hstop : stop ≠ 0) : ∃ i ∈ instructions, i.offset = 0 := by
  cases instructions with
  | nil => exact absurd h.symm hstop
  | cons i rest => exact ⟨i, List.mem_cons_self, h.1⟩

/-! ### Look-up by offset -/

/-- A map made of pairs with different keys finds what the pairs hold. -/
theorem getElem?_ofList_eq_some {pairs : List (Nat × Nat)} (hnodup : (pairs.map (·.1)).Nodup)
    {key value : Nat} :
    (Std.HashMap.ofList pairs)[key]? = some value ↔ (key, value) ∈ pairs := by
  have hdistinct : pairs.Pairwise fun a b => (a.1 == b.1) = false :=
    (List.pairwise_map.mp hnodup).imp fun h => beq_false_of_ne h
  constructor
  · intro h
    by_cases hin : key ∈ pairs.map (·.1)
    · obtain ⟨⟨_, v⟩, hv, rfl⟩ := List.mem_map.mp hin
      rw [Std.HashMap.getElem?_ofList_of_mem (beq_self_eq_true _) hdistinct hv] at h
      cases h
      exact hv
    · rw [Std.HashMap.getElem?_ofList_of_contains_eq_false] at h
      · cases h
      · rw [← Bool.not_eq_true, List.contains_iff_mem]
        exact hin
  · intro h
    exact Std.HashMap.getElem?_ofList_of_mem (beq_self_eq_true key) hdistinct h

end ClassAtlas.Code
