import ClassAtlas.Proofs.Code.Blocks
import Mathlib.Data.List.Nodup

/-!
The block graph has the control flow of the instructions: the ways between blocks are those that
control takes from the last instruction of one to the first of another, and inside a block it goes
from each instruction to the next.
-/

namespace ClassAtlas

/-- Control goes from the instruction to the offset without an exception, and why. -/
inductive Instruction.LeadsTo (i : Instruction) : TransferKind → Nat → Prop
  | next (h : i.flow = .next) : LeadsTo i .fallThrough i.nextOffset
  | goto {target : Nat} (h : i.flow = .goto target) : LeadsTo i .jump target
  | branch {target : Nat} (h : i.flow = .branch target) : LeadsTo i .branch target
  | noBranch {target : Nat} (h : i.flow = .branch target) : LeadsTo i .fallThrough i.nextOffset
  | subroutine {target : Nat} (h : i.flow = .subroutine target) : LeadsTo i .subroutine target
  | comeBack {target : Nat} (h : i.flow = .subroutine target) :
    LeadsTo i .fallThrough i.nextOffset
  | default {default : Nat} {targets : List Nat} (h : i.flow = .switch default targets) :
    LeadsTo i .switchCase default
  | case {default target : Nat} {targets : List Nat} (h : i.flow = .switch default targets)
    (hmem : target ∈ targets) : LeadsTo i .switchCase target

namespace BlockGraph

variable {instructions : List Instruction} {handlers : List Handler}

/-! ### Ways out of an instruction -/

theorem mem_exits {i : Instruction} {offset : Nat} {kind : TransferKind} :
    (offset, kind) ∈ exits i ↔ i.LeadsTo kind offset := by
  constructor
  · intro h
    rw [exits] at h
    cases hflow : i.flow with
    | next =>
      obtain ⟨rfl, rfl⟩ : offset = i.nextOffset ∧ kind = .fallThrough := by simpa [hflow] using h
      exact .next hflow
    | goto target =>
      obtain ⟨rfl, rfl⟩ : offset = target ∧ kind = .jump := by simpa [hflow] using h
      exact .goto hflow
    | branch target =>
      obtain ⟨rfl, rfl⟩ | ⟨rfl, rfl⟩ : (offset = target ∧ kind = .branch) ∨
        (offset = i.nextOffset ∧ kind = .fallThrough) := by simpa [hflow] using h
      · exact .branch hflow
      · exact .noBranch hflow
    | subroutine target =>
      obtain ⟨rfl, rfl⟩ | ⟨rfl, rfl⟩ : (offset = target ∧ kind = .subroutine) ∨
        (offset = i.nextOffset ∧ kind = .fallThrough) := by simpa [hflow] using h
      · exact .subroutine hflow
      · exact .comeBack hflow
    | switch default targets =>
      rw [hflow] at h
      obtain ⟨target, hmem, heq⟩ := List.mem_map.mp h
      cases heq
      rcases List.mem_cons.mp hmem with rfl | hmem
      · exact .default hflow
      · exact .case hflow hmem
    | exit => simp [hflow] at h
  · intro h
    cases h with
    | next hflow => simp [exits, hflow]
    | goto hflow => simp [exits, hflow]
    | branch hflow => simp [exits, hflow]
    | noBranch hflow => simp [exits, hflow]
    | subroutine hflow => simp [exits, hflow]
    | comeBack hflow => simp [exits, hflow]
    | default hflow => simp [exits, hflow]
    | case hflow hmem => simp [exits, hflow, hmem]

/-- Control that does not leave the block goes to the next instruction. -/
theorem leadsTo_of_not_endsBlock {i : Instruction} {kind : TransferKind} {offset : Nat}
    (hends : i.endsBlock = false) :
    i.LeadsTo kind offset ↔ kind = .fallThrough ∧ offset = i.nextOffset := by
  have hflow : i.flow = .next := by simpa [Instruction.endsBlock] using hends
  rw [← mem_exits, exits, hflow]
  simp [and_comm]

/-- Where control leaves a block, another begins. -/
theorem mem_leaders_of_leadsTo {i : Instruction} {kind : TransferKind} {offset : Nat}
    (hi : i ∈ instructions) (hends : i.endsBlock) (h : i.LeadsTo kind offset) :
    offset ∈ leaders instructions handlers := by
  refine mem_leaders.mpr (.inl ⟨i, hi, hends, ?_⟩)
  cases h with
  | next hflow => exact .inl rfl
  | goto hflow => simp [flowTargets, hflow]
  | branch hflow => simp [flowTargets, hflow]
  | noBranch hflow => exact .inl rfl
  | subroutine hflow => simp [flowTargets, hflow]
  | comeBack hflow => exact .inl rfl
  | default hflow => simp [flowTargets, hflow]
  | case hflow hmem => simp [flowTargets, hflow, hmem]

/-! ### Edges -/

/-- The entries noted by `distinct` so far, with the same entries as a set. -/
theorem foldl_distinct (edges : List Transfer) (acc : List Transfer × Std.HashSet Transfer)
    (hset : ∀ e, e ∈ acc.2 ↔ e ∈ acc.1) (hnodup : acc.1.Nodup) :
    let result := edges.foldl
      (fun (acc : List Transfer × Std.HashSet Transfer) e =>
        if acc.2.contains e then acc else (e :: acc.1, acc.2.insert e)) acc
    result.1.Nodup ∧ ∀ e, e ∈ result.1 ↔ e ∈ acc.1 ∨ e ∈ edges := by
  induction edges generalizing acc with
  | nil => simpa using hnodup
  | cons e edges ih =>
    rw [List.foldl_cons]
    by_cases hmem : e ∈ acc.1
    · rw [if_pos (Std.HashSet.contains_iff_mem.mpr ((hset e).mpr hmem))]
      refine ⟨(ih acc hset hnodup).1, fun e' => ?_⟩
      rw [(ih acc hset hnodup).2, List.mem_cons]
      grind
    · rw [if_neg (by rwa [Std.HashSet.contains_iff_mem, hset])]
      have hnext := ih (e :: acc.1, acc.2.insert e)
        (fun e' => by rw [Std.HashSet.mem_insert, beq_iff_eq, hset, List.mem_cons, eq_comm])
        (List.nodup_cons.mpr ⟨hmem, hnodup⟩)
      refine ⟨hnext.1, fun e' => ?_⟩
      rw [hnext.2, List.mem_cons, List.mem_cons]
      grind

theorem nodup_distinct (edges : List Transfer) : (distinct edges).Nodup :=
  List.nodup_reverse.mpr (foldl_distinct edges ([], ∅) (by simp) List.nodup_nil).1

theorem mem_distinct {edges : List Transfer} {e : Transfer} : e ∈ distinct edges ↔ e ∈ edges := by
  rw [distinct, List.mem_reverse, (foldl_distinct edges ([], ∅) (by simp) List.nodup_nil).2]
  simp

/-- A way out of a block is noted if another block starts where it leads. -/
theorem transfer?_eq_some {stop : Nat} (htiles : Code.Tiles 0 instructions stop) {source : Nat}
    {exit : Nat × TransferKind} {e : Transfer} :
    transfer? (blockStarts (ofInstructions instructions handlers).blocks) source exit = some e ↔
      e.source = source ∧ e.kind = exit.2 ∧ ∃ B,
        (ofInstructions instructions handlers).blocks[e.target]? = some B ∧ B.start = exit.1 := by
  rw [← blockStarts_eq_some htiles, transfer?, Option.map_eq_some_iff]
  constructor
  · rintro ⟨target, htarget, rfl⟩
    exact ⟨rfl, rfl, htarget⟩
  · rintro ⟨rfl, hkind, htarget⟩
    exact ⟨e.target, htarget, by rw [← hkind]⟩

/-- The edges from where control leaves the blocks. -/
def flowEdges (instructions : List Instruction) (handlers : List Handler) : List Transfer :=
  let blocks := (ofInstructions instructions handlers).blocks
  (blocks.zip (blockRuns instructions handlers)).flatMap fun x =>
    ((x.2.getLast?.map exits).getD []).filterMap (transfer? (blockStarts blocks) x.1.index)

/-- The edges to the handlers. -/
def thrownEdges (instructions : List Instruction) (handlers : List Handler) : List Transfer :=
  let blocks := (ofInstructions instructions handlers).blocks
  handlers.flatMap fun h =>
    (blocks.filter fun b => h.covers b.start).filterMap fun b =>
      transfer? (blockStarts blocks) b.index (h.handler, .exception)

theorem edges_eq : (ofInstructions instructions handlers).edges =
    distinct (flowEdges instructions handlers ++ thrownEdges instructions handlers) := rfl

theorem mem_flowEdges {stop : Nat} (htiles : Code.Tiles 0 instructions stop) {e : Transfer} :
    e ∈ flowEdges instructions handlers ↔
      ∃ A B i, (ofInstructions instructions handlers).blocks[e.source]? = some A ∧
        (ofInstructions instructions handlers).blocks[e.target]? = some B ∧
        instructions[A.endInstruction - 1]? = some i ∧ i.LeadsTo e.kind B.start := by
  rw [flowEdges, List.mem_flatMap]
  constructor
  · rintro ⟨⟨A, run⟩, hzip, h⟩
    obtain ⟨k, hk⟩ := List.mem_iff_getElem?.mp hzip
    obtain ⟨hA, hrun⟩ := List.getElem?_zip_eq_some.mp hk
    obtain ⟨exit, hexit, h⟩ := List.mem_filterMap.mp h
    obtain ⟨hsource, hkind, B, hB, hoffset⟩ := (transfer?_eq_some htiles).mp h
    rw [index_of_blocks hA] at hsource
    dsimp only at hexit
    rw [getLast?_run hA hrun] at hexit
    cases hi : instructions[A.endInstruction - 1]? with
    | none => simp [hi] at hexit
    | some i =>
      refine ⟨A, B, i, by rw [hsource]; exact hA, hB, hi, mem_exits.mp ?_⟩
      rw [hoffset, hkind]
      simpa [hi] using hexit
  · rintro ⟨A, B, i, hA, hB, hi, hleads⟩
    obtain ⟨run, _, _, hrun, -, -, -⟩ := getElem?_blocks.mp hA
    have hexit : (B.start, e.kind) ∈ (run.getLast?.map exits).getD [] := by
      rw [getLast?_run hA hrun, hi]
      exact mem_exits.mpr hleads
    exact ⟨(A, run), List.mem_of_getElem? (List.getElem?_zip_eq_some.mpr ⟨hA, hrun⟩),
      List.mem_filterMap.mpr ⟨_, hexit, (transfer?_eq_some htiles).mpr
        ⟨(index_of_blocks hA).symm, rfl, B, hB, rfl⟩⟩⟩

theorem mem_thrownEdges {stop : Nat} (htiles : Code.Tiles 0 instructions stop) {e : Transfer} :
    e ∈ thrownEdges instructions handlers ↔
      ∃ A B h, (ofInstructions instructions handlers).blocks[e.source]? = some A ∧
        (ofInstructions instructions handlers).blocks[e.target]? = some B ∧
        e.kind = .exception ∧ h ∈ handlers ∧ h.covers A.start ∧ B.start = h.handler := by
  rw [thrownEdges, List.mem_flatMap]
  constructor
  · rintro ⟨handler, hhandler, h⟩
    obtain ⟨A, hfilter, h⟩ := List.mem_filterMap.mp h
    obtain ⟨hmem, hcovers⟩ := List.mem_filter.mp hfilter
    obtain ⟨k, hA⟩ := List.mem_iff_getElem?.mp hmem
    obtain ⟨hsource, hkind, B, hB, hoffset⟩ := (transfer?_eq_some htiles).mp h
    rw [index_of_blocks hA] at hsource
    exact ⟨A, B, handler, by rw [hsource]; exact hA, hB, hkind, hhandler, hcovers, hoffset⟩
  · rintro ⟨A, B, handler, hA, hB, hkind, hhandler, hcovers, hoffset⟩
    exact ⟨handler, hhandler, List.mem_filterMap.mpr
      ⟨A, List.mem_filter.mpr ⟨List.mem_of_getElem? hA, hcovers⟩, (transfer?_eq_some htiles).mpr
        ⟨(index_of_blocks hA).symm, hkind, B, hB, hoffset⟩⟩⟩

/-! ### The flow of instructions and that of blocks -/

/-- Control leaves no block before its last instruction. -/
theorem not_endsBlock_of_inside {stop n : Nat} {i : Instruction} {A : BasicBlock}
    (htiles : Code.Tiles 0 instructions stop)
    (hA : A ∈ (ofInstructions instructions handlers).blocks) (hi : instructions[n]? = some i)
    (hle : A.firstInstruction ≤ n) (hlt : n + 1 < A.endInstruction) : i.endsBlock = false := by
  have hmax := maximal_of_mem_blocks hA
  obtain ⟨last, hlast, -⟩ := hmax.stop
  have hnext : n + 1 < instructions.length := by
    have := (List.getElem?_eq_some_iff.mp hlast).1
    omega
  have hinner := hmax.inner (n + 1) _ (by omega) hlt (List.getElem?_eq_getElem hnext)
  rw [htiles.offset_succ hi (List.getElem?_eq_getElem hnext)] at hinner
  refine Bool.eq_false_iff.mpr fun hends => hinner (mem_leaders.mpr (.inl ?_))
  exact ⟨i, List.mem_of_getElem? hi, hends, .inl rfl⟩

/-- Where control goes from the last instruction of a block, another block begins. -/
theorem mem_leaders_of_last {stop n m : Nat} {i j : Instruction} {kind : TransferKind}
    {A : BasicBlock} (htiles : Code.Tiles 0 instructions stop)
    (hA : A ∈ (ofInstructions instructions handlers).blocks) (hlast : A.endInstruction = n + 1)
    (hi : instructions[n]? = some i) (hj : instructions[m]? = some j)
    (h : i.LeadsTo kind j.offset) : j.offset ∈ leaders instructions handlers := by
  cases hends : i.endsBlock with
  | true => exact mem_leaders_of_leadsTo (List.mem_of_getElem? hi) hends h
  | false =>
    -- the block was cut here because a leader follows
    have hnext := ((leadsTo_of_not_endsBlock hends).mp h).2
    obtain rfl := (htiles.offset_eq_nextOffset_iff hi hj).mp hnext
    exact (maximal_of_mem_blocks hA).behind j (hlast ▸ hj)

/-- Blocks are joined by an ordinary edge if control goes from the last instruction of one to the
first of the other. -/
theorem mem_edges_iff_leadsTo {stop n m a b : Nat} {i j : Instruction} {kind : TransferKind}
    {A B : BasicBlock} (htiles : Code.Tiles 0 instructions stop)
    (hA : (ofInstructions instructions handlers).blocks[a]? = some A)
    (hlast : A.endInstruction = n + 1) (hi : instructions[n]? = some i)
    (hB : (ofInstructions instructions handlers).blocks[b]? = some B)
    (hfirst : B.firstInstruction = m) (hj : instructions[m]? = some j) (hkind : kind ≠ .exception) :
    ⟨a, b, kind⟩ ∈ (ofInstructions instructions handlers).edges ↔ i.LeadsTo kind j.offset := by
  have hend : instructions[A.endInstruction - 1]? = some i := by rw [hlast]; exact hi
  rw [← start_of_mem_blocks (List.mem_of_getElem? hB) (hfirst ▸ hj), edges_eq, mem_distinct,
    List.mem_append, mem_flowEdges htiles, mem_thrownEdges htiles]
  constructor
  · rintro (⟨A', B', i', hA', hB', hi', hleads⟩ | ⟨_, _, _, -, -, hexception, -⟩)
    · obtain rfl := Option.some_inj.mp (hA.symm.trans hA')
      obtain rfl := Option.some_inj.mp (hB.symm.trans hB')
      obtain rfl := Option.some_inj.mp (hend.symm.trans hi')
      exact hleads
    · exact absurd hexception hkind
  · intro h
    exact .inl ⟨A, B, i, hA, hB, hend, h⟩

/-- Control goes from an instruction to another without an exception if and only if the second one
follows the first inside a block, where it falls through, or the first one is the last of a block,
the second one is the first of a block, and an edge of this kind joins the two blocks. No edge is
listed twice, and all join blocks of the graph. -/
theorem ofInstructions_quotient {label : String} {pool : Pool} {code : Bytes}
    (hdecode : Code.decode label pool code = .ok instructions) (handlers : List Handler) :
    let g := ofInstructions instructions handlers
    (∀ n m i j kind, instructions[n]? = some i → instructions[m]? = some j → kind ≠ .exception →
      (i.LeadsTo kind j.offset ↔
        (kind = .fallThrough ∧ m = n + 1 ∧
          ∃ A ∈ g.blocks, A.firstInstruction ≤ n ∧ m < A.endInstruction) ∨
        ∃ a b A B, g.blocks[a]? = some A ∧ A.endInstruction = n + 1 ∧
          g.blocks[b]? = some B ∧ B.firstInstruction = m ∧ ⟨a, b, kind⟩ ∈ g.edges)) ∧
    g.edges.Nodup ∧ ∀ e ∈ g.edges, e.source < g.blocks.length ∧ e.target < g.blocks.length := by
  have htiles := Code.decode_tiles hdecode
  intro g
  refine ⟨fun n m i j kind hi hj hkind => ⟨fun h => ?_, ?_⟩, nodup_distinct _, fun e he => ?_⟩
  · obtain ⟨a, A, hA, hle, hlt⟩ := exists_block handlers (List.getElem?_eq_some_iff.mp hi).1
    have hmem := List.mem_of_getElem? hA
    by_cases hlast : A.endInstruction = n + 1
    · obtain ⟨b, B, hB, hfirst⟩ :=
        exists_block_of_leader hj (mem_leaders_of_last htiles hmem hlast hi hj h)
      exact .inr ⟨a, b, A, B, hA, hlast, hB, hfirst,
        (mem_edges_iff_leadsTo htiles hA hlast hi hB hfirst hj hkind).mpr h⟩
    · have hinside : n + 1 < A.endInstruction := by omega
      have hends := not_endsBlock_of_inside htiles hmem hi hle hinside
      obtain ⟨hfall, hnext⟩ := (leadsTo_of_not_endsBlock hends).mp h
      obtain rfl := (htiles.offset_eq_nextOffset_iff hi hj).mp hnext
      exact .inl ⟨hfall, rfl, A, hmem, hle, hinside⟩
  · rintro (⟨rfl, rfl, A, hA, hle, hlt⟩ | ⟨a, b, A, B, hA, hlast, hB, hfirst, hedge⟩)
    · have hends := not_endsBlock_of_inside htiles hA hi hle hlt
      exact (leadsTo_of_not_endsBlock hends).mpr ⟨rfl, htiles.offset_succ hi hj⟩
    · exact (mem_edges_iff_leadsTo htiles hA hlast hi hB hfirst hj hkind).mp hedge
  · have hends : ∃ A B, g.blocks[e.source]? = some A ∧ g.blocks[e.target]? = some B := by
      rw [edges_eq, mem_distinct, List.mem_append, mem_flowEdges htiles,
        mem_thrownEdges htiles] at he
      rcases he with ⟨A, B, _, hA, hB, -⟩ | ⟨A, B, _, hA, hB, -⟩
      · exact ⟨A, B, hA, hB⟩
      · exact ⟨A, B, hA, hB⟩
    obtain ⟨A, B, hA, hB⟩ := hends
    exact ⟨(List.getElem?_eq_some_iff.mp hA).1, (List.getElem?_eq_some_iff.mp hB).1⟩

end BlockGraph

/-!
A switch that has the same target twice, next to a default of its own.
-/

namespace Twice

def code : Bytes :=
  [0x1A, 0xAA, 0, 0, 0, 0, 0, 24, 0, 0, 0, 0, 0, 0, 0, 1, 0, 0, 0, 23, 0, 0, 0, 23, 0xB1, 0xB1]

def instructions : List Instruction :=
  [⟨0, 0x1A, 1, false, .slot 0⟩, ⟨1, 0xAA, 23, false, .switch 25 [24, 24]⟩,
    ⟨24, 0xB1, 1, false, .none⟩, ⟨25, 0xB1, 1, false, .none⟩]

theorem one_edge_for_both_cases :
    Code.decode "Twice" .empty code = .ok instructions ∧
    (BlockGraph.ofInstructions instructions []).edges.Nodup ∧
    ∃ a b A B, (BlockGraph.ofInstructions instructions []).blocks[a]? = some A ∧
      A.endInstruction = 2 ∧ (BlockGraph.ofInstructions instructions []).blocks[b]? = some B ∧
      B.firstInstruction = 2 ∧
      ⟨a, b, .switchCase⟩ ∈ (BlockGraph.ofInstructions instructions []).edges := by
  have hdecode : Code.decode "Twice" .empty code = .ok instructions := by decide
  obtain ⟨hflow, hnodup, -⟩ := BlockGraph.ofInstructions_quotient hdecode []
  have hcase : Instruction.LeadsTo ⟨1, 0xAA, 23, false, .switch 25 [24, 24]⟩ .switchCase 24 :=
    .case rfl List.mem_cons_self
  refine ⟨hdecode, hnodup, ?_⟩
  rcases (hflow 1 2 _ ⟨24, 0xB1, 1, false, .none⟩ .switchCase rfl rfl (by decide)).mp hcase with
    ⟨hkind, -⟩ | hedge
  · cases hkind
  · exact hedge

end Twice

end ClassAtlas
