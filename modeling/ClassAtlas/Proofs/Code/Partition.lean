import ClassAtlas.Proofs.Code.Blocks
import ClassAtlas.Proofs.Code.Decoding

/-!
Blocks partition the code. They cover the instructions and the offsets one behind the other, each
but the first begins where something makes it begin, and every offset of the code finds its block.
-/

namespace ClassAtlas

/-! ### Spans of numbers -/

/-- The items, each from one number up to another, are not empty and lie one behind the other. The
first begins at the first number given, the last ends at the second. -/
def Consecutive {α : Type} (low high : α → Nat) : Nat → List α → Nat → Prop
  | start, [], stop => start = stop
  | start, a :: rest, stop =>
    low a = start ∧ start < high a ∧ Consecutive low high (high a) rest stop

namespace Consecutive

variable {α : Type} {low high : α → Nat} {start stop n : Nat} {as : List α} {a b : α}

theorem start_le (h : Consecutive low high start as stop) : start ≤ stop := by
  induction as generalizing start with
  | nil => exact Nat.le_of_eq h
  | cons x rest ih => exact Nat.le_trans (Nat.le_of_lt h.2.1) (ih h.2.2)

theorem bounds (h : Consecutive low high start as stop) :
    ∀ a ∈ as, start ≤ low a ∧ low a < high a ∧ high a ≤ stop := by
  induction as generalizing start with
  | nil => simp
  | cons x rest ih =>
    obtain ⟨rfl, hlt, hrest⟩ := h
    refine List.forall_mem_cons.mpr ⟨⟨Nat.le_refl _, hlt, hrest.start_le⟩, fun a ha => ?_⟩
    have := ih hrest a ha
    omega

/-- The last item that begins at a number or before is the one that the number lies in. -/
theorem find?_iff (h : Consecutive low high start as stop) :
    ((as.reverse.find? fun a => low a ≤ n).filter fun a => n < high a) = some a ↔
      a ∈ as ∧ low a ≤ n ∧ n < high a := by
  induction as generalizing start with
  | nil => simp
  | cons x rest ih =>
    obtain ⟨rfl, hlt, hrest⟩ := h
    rw [List.reverse_cons, List.find?_append, List.mem_cons]
    by_cases hn : n < high x
    · -- all later items begin behind the number
      have hbehind : ∀ b ∈ rest, n < low b := by
        intro b hb
        have := (hrest.bounds b hb).1
        omega
      have hnone : (rest.reverse.find? fun b => low b ≤ n) = none := by
        refine List.find?_eq_none.mpr fun b hb => ?_
        have := hbehind b (List.mem_reverse.mp hb)
        simpa using this
      rw [hnone, Option.none_or, List.find?_singleton]
      constructor
      · intro hfound
        obtain ⟨hfound, hlt'⟩ := Option.filter_eq_some_iff.mp hfound
        split at hfound
        · rename_i hle
          cases hfound
          exact ⟨.inl rfl, of_decide_eq_true hle, hn⟩
        · cases hfound
      · rintro ⟨rfl | ha, hle, hlt'⟩
        · simp [hle, hn]
        · have := hbehind a ha
          omega
    · have hpassed (found : Option α) : ((found.or ([x].find? fun b => low b ≤ n)).filter
          fun b => n < high b) = found.filter fun b => n < high b := by
        cases found with
        | some b => rfl
        | none => simpa [List.find?_singleton] using fun _ => Nat.le_of_not_lt hn
      rw [hpassed, ih hrest]
      refine and_congr_left fun hin => (or_iff_right ?_).symm
      rintro rfl
      exact hn hin.2

theorem unique (h : Consecutive low high start as stop) (ha : a ∈ as) (hb : b ∈ as)
    (hna : low a ≤ n ∧ n < high a) (hnb : low b ≤ n ∧ n < high b) : a = b :=
  Option.some_inj.mp ((h.find?_iff.mpr ⟨ha, hna⟩).symm.trans (h.find?_iff.mpr ⟨hb, hnb⟩))

/-- All numbers between the ends lie in some item. -/
theorem exists_mem (h : Consecutive low high start as stop) (hstart : start ≤ n)
    (hstop : n < stop) : ∃ a ∈ as, low a ≤ n ∧ n < high a := by
  induction as generalizing start with
  | nil =>
    cases h
    omega
  | cons x rest ih =>
    obtain ⟨rfl, hlt, hrest⟩ := h
    by_cases hn : n < high x
    · exact ⟨x, List.mem_cons_self, hstart, hn⟩
    · obtain ⟨a, ha, hin⟩ := ih hrest (Nat.le_of_not_lt hn)
      exact ⟨a, List.mem_cons_of_mem _ ha, hin⟩

end Consecutive

namespace BlockGraph

variable {instructions : List Instruction} {handlers : List Handler} {rs : List (List Instruction)}

/-! ### Blocks one behind the other -/

theorem blocksFrom_consecutive (hne : [] ∉ rs) (index position : Nat) :
    Consecutive BasicBlock.firstInstruction BasicBlock.endInstruction position
      (blocksFrom [] index position rs) (position + rs.flatten.length) := by
  induction rs generalizing index position with
  | nil => rfl
  | cons run rest ih =>
    obtain ⟨hnil, hrest⟩ := not_or.mp (List.mem_cons.not.mp hne)
    have hrun : run ≠ [] := Ne.symm hnil
    rw [blocksFrom_cons (List.head?_eq_some_head hrun) (List.getLast?_eq_some_getLast hrun)]
    refine ⟨rfl, ?_, ?_⟩
    · exact Nat.lt_add_of_pos_right (List.length_pos_iff.mpr hrun)
    · rw [List.flatten_cons, List.length_append, ← Nat.add_assoc]
      exact ih hrest _ _

theorem blocksFrom_tiles (hne : [] ∉ rs) {start stop : Nat}
    (htiles : Code.Tiles start rs.flatten stop) (index position : Nat) :
    Consecutive BasicBlock.start BasicBlock.stop start (blocksFrom [] index position rs) stop := by
  induction rs generalizing start index position with
  | nil => exact htiles
  | cons run rest ih =>
    obtain ⟨hnil, hrest⟩ := not_or.mp (List.mem_cons.not.mp hne)
    have hrun : run ≠ [] := Ne.symm hnil
    have hfirst := List.head?_eq_some_head hrun
    have hlast := List.getLast?_eq_some_getLast hrun
    obtain ⟨middle, hfront, hback⟩ := Code.Tiles.append_iff.mp htiles
    rw [blocksFrom_cons hfirst hlast]
    refine ⟨hfront.offset_first hfirst, ?_, ?_⟩
    · rw [hfront.nextOffset_last hlast]
      exact Nat.lt_of_le_of_ne hfront.start_le (mt hfront.eq_nil_iff.mpr hrun)
    · rw [hfront.nextOffset_last hlast]
      exact ih hrest hback _ _

/-- The blocks cover the instructions. -/
theorem blocks_consecutive (instructions : List Instruction) (handlers : List Handler) :
    Consecutive BasicBlock.firstInstruction BasicBlock.endInstruction 0
      (ofInstructions instructions handlers).blocks instructions.length := by
  have hne : [] ∉ blockRuns instructions handlers := nil_not_mem_blockRuns
  have h := blocksFrom_consecutive hne 0 0
  rwa [flatten_blockRuns, Nat.zero_add] at h

/-- The blocks cover the code. -/
theorem blocks_tile {stop : Nat} (htiles : Code.Tiles 0 instructions stop)
    (handlers : List Handler) :
    Consecutive BasicBlock.start BasicBlock.stop 0
      (ofInstructions instructions handlers).blocks stop := by
  rw [← flatten_blockRuns instructions handlers] at htiles
  exact blocksFrom_tiles nil_not_mem_blockRuns htiles 0 0

/-! ### Where blocks begin -/

theorem flowTargets_flow (i : Instruction) : flowTargets i.flow = i.operand.targets := by
  unfold Instruction.flow
  cases i.operand with
  | jump target =>
    dsimp only
    split_ifs <;> rfl
  | switch default targets => rfl
  | _ =>
    dsimp only
    split <;> rfl

theorem endsBlock_of_mem_targets {i : Instruction} {offset : Nat}
    (h : offset ∈ i.operand.targets) : i.endsBlock := by
  rw [← flowTargets_flow] at h
  refine bne_iff_ne.mpr fun hflow => ?_
  rw [hflow] at h
  cases h

/-- Leaders behind the first instruction are the ends of blocks, the targets of jumps and switches,
and the bounds and entry points of handlers. -/
theorem mem_leaders_iff {stop n : Nat} {i j : Instruction} (htiles : Code.Tiles 0 instructions stop)
    (hi : instructions[n]? = some i) (hj : instructions[n + 1]? = some j) :
    j.offset ∈ leaders instructions handlers ↔
      i.endsBlock ∨ (∃ x ∈ instructions, j.offset ∈ x.operand.targets) ∨
        ∃ h ∈ handlers, j.offset = h.start ∨ j.offset = h.stop ∨ j.offset = h.handler := by
  rw [mem_leaders, ← or_assoc]
  refine or_congr_left ⟨?_, ?_⟩
  · rintro ⟨x, hx, hends, hnext | htarget⟩
    · obtain ⟨m, hm⟩ := List.mem_iff_getElem?.mp hx
      have hplace := (htiles.offset_eq_nextOffset_iff hm hj).mp hnext
      obtain rfl : n = m := by omega
      rw [hi, Option.some_inj] at hm
      exact .inl (hm ▸ hends)
    · exact .inr ⟨x, hx, flowTargets_flow x ▸ htarget⟩
  · rintro (hends | ⟨x, hx, htarget⟩)
    · exact ⟨i, List.mem_of_getElem? hi, hends, .inl (htiles.offset_succ hi hj)⟩
    · exact ⟨x, hx, endsBlock_of_mem_targets htarget, .inr (flowTargets_flow x ▸ htarget)⟩

/-- A block begins behind an instruction exactly if a leader stands there. -/
theorem begins_iff {n : Nat} {j : Instruction} (hj : instructions[n + 1]? = some j) :
    (∃ b ∈ (ofInstructions instructions handlers).blocks, b.firstInstruction = n + 1) ↔
      j.offset ∈ leaders instructions handlers := by
  have hblocks := blocks_consecutive instructions handlers
  have hlt := (List.getElem?_eq_some_iff.mp hj).1
  constructor
  · rintro ⟨b, hb, hfirst⟩
    -- the block of the instruction in front is another one, so it ends in front of this one
    obtain ⟨a, ha, hle, hin⟩ := hblocks.exists_mem (Nat.zero_le n) (by omega)
    have hend : a.endInstruction = n + 1 := by
      by_contra hne
      obtain ⟨-, hbpos, -⟩ := hblocks.bounds b hb
      obtain rfl := hblocks.unique (n := n + 1) ha hb ⟨by omega, by omega⟩ ⟨by omega, by omega⟩
      omega
    exact (maximal_of_mem_blocks ha).behind j (hend ▸ hj)
  · intro hleader
    obtain ⟨k, b, hb, hfirst⟩ := exists_block_of_leader hj hleader
    exact ⟨b, List.mem_of_getElem? hb, hfirst⟩

/-! ### The partition -/

/-- The blocks of decoded code cover its instructions and its bytes, one behind the other and none
of them empty, and each starts where its first instruction does. Behind an instruction another block
begins exactly if this instruction ends a block, or if the next one is the target of a jump or a
switch, or a bound or the entry point of a handler. An offset lies in the one block that is found
for it, and those behind the code lie in none. -/
theorem ofInstructions_partition {label : String} {pool : Pool} {code : Bytes}
    (hdecode : Code.decode label pool code = .ok instructions) (handlers : List Handler) :
    let g := ofInstructions instructions handlers
    Consecutive BasicBlock.firstInstruction BasicBlock.endInstruction 0 g.blocks
      instructions.length ∧
    Consecutive BasicBlock.start BasicBlock.stop 0 g.blocks code.length ∧
    (∀ b ∈ g.blocks, ∃ i, instructions[b.firstInstruction]? = some i ∧ b.start = i.offset) ∧
    (∀ n i j, instructions[n]? = some i → instructions[n + 1]? = some j →
      ((∃ b ∈ g.blocks, b.firstInstruction = n + 1) ↔
        i.endsBlock ∨ (∃ x ∈ instructions, j.offset ∈ x.operand.targets) ∨
          ∃ h ∈ handlers, j.offset = h.start ∨ j.offset = h.stop ∨ j.offset = h.handler)) ∧
    ∀ offset,
      (∀ b, g.blockAt? offset = some b ↔ b ∈ g.blocks ∧ b.start ≤ offset ∧ offset < b.stop) ∧
      (g.blockAt? offset = none ↔ code.length ≤ offset) := by
  have htiles := Code.decode_tiles hdecode
  have hspans := blocks_tile htiles handlers
  intro g
  refine ⟨blocks_consecutive instructions handlers, hspans, fun b hb => ?_,
    fun n i j hi hj => (begins_iff hj).trans (mem_leaders_iff htiles hi hj),
    fun offset => ⟨fun b => hspans.find?_iff, ?_⟩⟩
  · obtain ⟨i, hi, hstart⟩ := (maximal_of_mem_blocks hb).start
    exact ⟨i, hi, hstart.symm⟩
  · rw [Option.eq_none_iff_forall_ne_some]
    constructor
    · intro hnone
      by_contra hlt
      obtain ⟨b, hb, hin⟩ := hspans.exists_mem (Nat.zero_le offset) (Nat.lt_of_not_le hlt)
      exact hnone b (hspans.find?_iff.mpr ⟨hb, hin⟩)
    · intro hle b hfound
      obtain ⟨hb, -, hlt⟩ := hspans.find?_iff.mp hfound
      have := (hspans.bounds b hb).2.2
      omega

end BlockGraph

/-!
A handler that begins inside an instruction, ends behind the code and is entered at an instruction
that no jump leads to.
-/

namespace Uneven

def code : Bytes := [0x1A, 0x99, 0, 5, 0x03, 0x57, 0xB1]

def instructions : List Instruction :=
  [⟨0, 0x1A, 1, false, .slot 0⟩, ⟨1, 0x99, 3, false, .jump 6⟩, ⟨4, 0x03, 1, false, .none⟩,
    ⟨5, 0x57, 1, false, .none⟩, ⟨6, 0xB1, 1, false, .none⟩]

def handler : Handler := ⟨2, 9, 5, none⟩

theorem found_inside_instruction :
    let g := BlockGraph.ofInstructions instructions [handler]
    Code.decode "Uneven" .empty code = .ok instructions ∧
    (∃ b ∈ g.blocks, b.firstInstruction = 3) ∧
    (∃ b ∈ g.blocks, g.blockAt? 2 = some b ∧ b.start ≤ 2 ∧ 2 < b.stop) ∧
    g.blockAt? 7 = none := by
  intro g
  have hdecode : Code.decode "Uneven" .empty code = .ok instructions := by decide
  obtain ⟨_, _, _, hbegins, hfound⟩ := BlockGraph.ofInstructions_partition hdecode [handler]
  refine ⟨hdecode, ?_, ?_, (hfound 7).2.mpr (Nat.le_refl 7)⟩
  · exact (hbegins 2 _ _ rfl rfl).mpr (.inr (.inr ⟨handler, List.mem_cons_self, .inr (.inr rfl)⟩))
  · cases hb : g.blockAt? 2 with
    | none => exact absurd ((hfound 2).2.mp hb) (by decide)
    | some b =>
      obtain ⟨hmem, hin⟩ := ((hfound 2).1 b).mp hb
      exact ⟨b, hmem, rfl, hin⟩

end Uneven

end ClassAtlas
