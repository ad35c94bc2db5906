import ClassAtlas.Proofs.Code.ControlFlow
import ClassAtlas.Proofs.Code.Partition

/-!
The edges to handlers are exact. Handlers cover whole blocks or nothing of them, since blocks begin
at their bounds; so it is enough to look at the first instruction of a block.
-/

namespace ClassAtlas

/-- The bounds of the handler are offsets of instructions or the end of the code, and its entry
point is the offset of an instruction. -/
structure Handler.Aligned (h : Handler) (instructions : List Instruction) (stop : Nat) : Prop where
  start : h.start ∈ instructions.map (·.offset) ∨ h.start = stop
  stop : h.stop ∈ instructions.map (·.offset) ∨ h.stop = stop
  handler : h.handler ∈ instructions.map (·.offset)

theorem Handler.covers_iff {h : Handler} {offset : Nat} :
    h.covers offset ↔ h.start ≤ offset ∧ ¬ h.stop ≤ offset := by
  simp [Handler.covers]

/-- The instruction is one of those of the block. -/
def BasicBlock.Holds (b : BasicBlock) (instructions : List Instruction) (i : Instruction) : Prop :=
  ∃ n, b.firstInstruction ≤ n ∧ n < b.endInstruction ∧ instructions[n]? = some i

/-- No ordinary way out of an instruction is an exception. -/
theorem Instruction.LeadsTo.ne_exception {i : Instruction} {kind : TransferKind} {offset : Nat}
    (h : i.LeadsTo kind offset) : kind ≠ .exception := by
  rintro rfl
  cases h

namespace BlockGraph

variable {instructions : List Instruction} {handlers : List Handler} {A : BasicBlock}
  {h : Handler} {i j : Instruction} {stop : Nat}

/-- A leader does not stand between two instructions of a block. -/
theorem leader_le (htiles : Code.Tiles 0 instructions stop)
    (hA : A ∈ (ofInstructions instructions handlers).blocks) {offset : Nat}
    (hleader : offset ∈ leaders instructions handlers)
    (haligned : offset ∈ instructions.map (·.offset) ∨ offset = stop)
    (hi : A.Holds instructions i) (hj : A.Holds instructions j) (hle : offset ≤ i.offset) :
    offset ≤ j.offset := by
  obtain ⟨n, _, hn, hi⟩ := hi
  obtain ⟨m, hm, _, hj⟩ := hj
  rcases haligned with hoffset | rfl
  · obtain ⟨x, hx, rfl⟩ := List.mem_map.mp hoffset
    obtain ⟨k, hk⟩ := List.mem_iff_getElem?.mp hx
    have hkn := (htiles.offset_le_iff hk hi).mp hle
    -- were it behind the first instruction, another block would begin there
    have hfirst : k ≤ A.firstInstruction := by
      by_contra hinside
      exact (maximal_of_mem_blocks hA).inner k x (by omega) (by omega) hk hleader
    exact (htiles.offset_le_iff hk hj).mpr (Nat.le_trans hfirst hm)
  · have := htiles.offset_lt (List.mem_of_getElem? hi)
    omega

/-- A handler that covers an instruction of a block covers the whole block. -/
theorem covers_block (htiles : Code.Tiles 0 instructions stop)
    (hA : A ∈ (ofInstructions instructions handlers).blocks) (hh : h ∈ handlers)
    (haligned : h.Aligned instructions stop) (hi : A.Holds instructions i)
    (hj : A.Holds instructions j) (hcovers : h.covers i.offset) : h.covers j.offset := by
  have hstart : h.start ∈ leaders instructions handlers :=
    mem_leaders.mpr (.inr ⟨h, hh, .inl rfl⟩)
  have hstop : h.stop ∈ leaders instructions handlers :=
    mem_leaders.mpr (.inr ⟨h, hh, .inr (.inl rfl)⟩)
  obtain ⟨hle, hlt⟩ := Handler.covers_iff.mp hcovers
  exact Handler.covers_iff.mpr ⟨leader_le htiles hA hstart haligned.start hi hj hle,
    fun hbehind => hlt (leader_le htiles hA hstop haligned.stop hj hi hbehind)⟩

theorem holds_first (hA : A ∈ (ofInstructions instructions handlers).blocks) :
    ∃ i, A.Holds instructions i ∧ i.offset = A.start := by
  have hmax := maximal_of_mem_blocks hA
  obtain ⟨i, hi, hstart⟩ := hmax.start
  exact ⟨i, ⟨A.firstInstruction, Nat.le_refl _, hmax.lt, hi⟩, hstart⟩

/-- Whether the first instruction is covered decides for the block. -/
theorem covers_start_iff (htiles : Code.Tiles 0 instructions stop)
    (hA : A ∈ (ofInstructions instructions handlers).blocks) (hh : h ∈ handlers)
    (haligned : h.Aligned instructions stop) :
    h.covers A.start ↔ ∃ i, A.Holds instructions i ∧ h.covers i.offset := by
  obtain ⟨first, hfirst, hstart⟩ := holds_first hA
  rw [← hstart]
  constructor
  · intro hcovers
    exact ⟨first, hfirst, hcovers⟩
  · rintro ⟨i, hi, hcovers⟩
    exact covers_block htiles hA hh haligned hi hfirst hcovers

theorem mem_edges_exception (htiles : Code.Tiles 0 instructions stop) {a b : Nat} :
    ⟨a, b, .exception⟩ ∈ (ofInstructions instructions handlers).edges ↔
      ∃ A B h, (ofInstructions instructions handlers).blocks[a]? = some A ∧
        (ofInstructions instructions handlers).blocks[b]? = some B ∧ h ∈ handlers ∧
        h.covers A.start ∧ B.start = h.handler := by
  rw [edges_eq, mem_distinct, List.mem_append, mem_flowEdges htiles, mem_thrownEdges htiles]
  simp only [true_and]
  refine or_iff_right ?_
  rintro ⟨_, _, _, _, _, _, hleads⟩
  exact hleads.ne_exception rfl

/-- If the handlers begin and end where instructions do and are entered at instructions, a block has
an edge to another one for an exception exactly if the other one starts where a handler is entered
that covers some instruction of the block. It then covers all of them. Every handler is entered
where exactly one block starts. -/
theorem ofInstructions_exceptions {label : String} {pool : Pool} {code : Bytes}
    (hdecode : Code.decode label pool code = .ok instructions)
    (haligned : ∀ h ∈ handlers, h.Aligned instructions code.length) :
    let g := ofInstructions instructions handlers
    (∀ a b, ⟨a, b, .exception⟩ ∈ g.edges ↔
      ∃ A B h, g.blocks[a]? = some A ∧ g.blocks[b]? = some B ∧ h ∈ handlers ∧
        B.start = h.handler ∧ ∃ i, A.Holds instructions i ∧ h.covers i.offset) ∧
    (∀ A ∈ g.blocks, ∀ h ∈ handlers, ∀ i, A.Holds instructions i → h.covers i.offset →
      ∀ j, A.Holds instructions j → h.covers j.offset) ∧
    ∀ h ∈ handlers, ∃! B, B ∈ g.blocks ∧ B.start = h.handler := by
  have htiles := Code.decode_tiles hdecode
  intro g
  refine ⟨fun a b => (mem_edges_exception htiles).trans ?_, fun A hA h hh i hi hcovers j hj =>
    covers_block htiles hA hh (haligned h hh) hi hj hcovers, fun h hh => ?_⟩
  · refine exists_congr fun A => exists_congr fun B => exists_congr fun h => and_congr_right ?_
    intro hA
    refine and_congr_right fun _ => and_congr_right fun hh => ?_
    rw [covers_start_iff htiles (List.mem_of_getElem? hA) hh (haligned h hh), and_comm]
  · obtain ⟨i, hi, hentry⟩ := List.mem_map.mp (haligned h hh).handler
    obtain ⟨n, hn⟩ := List.mem_iff_getElem?.mp hi
    have hleader : i.offset ∈ leaders instructions handlers :=
      mem_leaders.mpr (.inr ⟨h, hh, .inr (.inr hentry)⟩)
    obtain ⟨k, B, hB, hfirst⟩ := exists_block_of_leader hn hleader
    have hmem := List.mem_of_getElem? hB
    have hstart : B.start = h.handler := (start_of_mem_blocks hmem (hfirst ▸ hn)).trans hentry
    refine ⟨B, ⟨hmem, hstart⟩, fun C ⟨hC, hCstart⟩ => ?_⟩
    have hspans := blocks_tile htiles handlers
    have hBspan := hspans.bounds B hmem
    have hCspan := hspans.bounds C hC
    exact hspans.unique (n := h.handler) hC hmem ⟨by omega, by omega⟩ ⟨by omega, by omega⟩

end BlockGraph

/-!
Two ranges that overlap. The outer one ends with the code and protects its own handler.
-/

namespace Overlap

def code : Bytes := [0x03, 0x57, 0xB1, 0x57, 0xB1]

def instructions : List Instruction :=
  [⟨0, 0x03, 1, false, .none⟩, ⟨1, 0x57, 1, false, .none⟩, ⟨2, 0xB1, 1, false, .none⟩,
    ⟨3, 0x57, 1, false, .none⟩, ⟨4, 0xB1, 1, false, .none⟩]

def handlers : List Handler := [⟨0, 2, 3, none⟩, ⟨1, 5, 3, none⟩]

theorem handler_protects_itself :
    let g := BlockGraph.ofInstructions instructions handlers
    Code.decode "Overlap" .empty code = .ok instructions ∧
    (∀ h ∈ handlers, h.Aligned instructions code.length) ∧
    ∃ b B, g.blocks[b]? = some B ∧ B.start = 3 ∧ ⟨b, b, .exception⟩ ∈ g.edges := by
  intro g
  have hdecode : Code.decode "Overlap" .empty code = .ok instructions := by decide
  have haligned : ∀ h ∈ handlers, h.Aligned instructions code.length := by
    intro h hh
    rcases List.mem_pair.mp hh with rfl | rfl
    · exact ⟨.inl (by decide), .inl (by decide), by decide⟩
    · exact ⟨.inl (by decide), .inr rfl, by decide⟩
  obtain ⟨hedges, _, hentered⟩ := BlockGraph.ofInstructions_exceptions hdecode haligned
  obtain ⟨B, ⟨hB, hstart⟩, -⟩ := hentered ⟨1, 5, 3, none⟩ (by decide)
  obtain ⟨b, hb⟩ := List.mem_iff_getElem?.mp hB
  obtain ⟨i, hi, hoffset⟩ := BlockGraph.holds_first hB
  refine ⟨hdecode, haligned, b, B, hb, hstart, (hedges b b).mpr ?_⟩
  refine ⟨B, B, ⟨1, 5, 3, none⟩, hb, hb, by decide, hstart, i, hi, ?_⟩
  rw [hoffset, hstart]
  rfl

end Overlap

end ClassAtlas
