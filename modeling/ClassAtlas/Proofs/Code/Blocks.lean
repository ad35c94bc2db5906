import ClassAtlas.Code.Blocks
import ClassAtlas.Proofs.Code.Tiling
import Mathlib.Data.List.SplitBy

/-!
Where the blocks of a method body lie. They are the maximal runs of instructions that have a leader
at most in front, one behind the other.
-/

namespace ClassAtlas.BlockGraph

variable {isLeader : Nat → Bool} {instructions : List Instruction} {handlers : List Handler}

/-! ### Runs -/

/-- Cutting into runs is cutting in front of leaders. -/
theorem runs_eq_splitBy (isLeader : Nat → Bool) (instructions : List Instruction) :
    runs isLeader instructions = instructions.splitBy fun _ j => !isLeader j.offset := by
  symm
  induction instructions with
  | nil => rfl
  | cons i instructions ih =>
    obtain ⟨hflatten, hne, hchain, hcuts⟩ := List.splitBy_eq_iff.mp ih
    rw [List.splitBy_eq_iff, runs, List.foldr_cons, ← runs]
    generalize runs isLeader instructions = rs at hflatten hne hchain hcuts
    subst hflatten
    match rs with
    | [] => simp
    | [] :: _ => exact absurd List.mem_cons_self hne
    | (j :: run) :: rest =>
      dsimp only
      split
      · rename_i hleader
        refine ⟨rfl, by simpa using hne, ?_, ?_⟩
        · simpa using hchain
        · exact hcuts.cons_cons ⟨by simp, by simp, by simpa using hleader⟩
      · rename_i hleader
        refine ⟨rfl, by simpa using hne, ?_, ?_⟩
        · simpa [hleader] using hchain
        · cases rest with
          | nil => exact .singleton _
          | cons r rest => simpa using hcuts

section Place

variable {rs : List (List Instruction)} {k : Nat} {run : List Instruction}

/-- How many instructions lie in front of a run. -/
def place (rs : List (List Instruction)) (k : Nat) : Nat := (rs.take k).flatten.length

theorem place_zero : place rs 0 = 0 := by simp [place]

@[simp]
theorem place_cons_succ : place (run :: rs) (k + 1) = run.length + place rs k := by simp [place]

theorem place_succ (hrun : rs[k]? = some run) : place rs (k + 1) = place rs k + run.length := by
  simp [place, List.take_add_one, hrun]

theorem place_mono {l : Nat} (hle : k ≤ l) : place rs k ≤ place rs l := by
  induction l, hle using Nat.le_induction with
  | base => exact Nat.le_refl _
  | succ l hle ih =>
    cases hrun : rs[l]? with
    | none => simpa [place, List.take_add_one, hrun] using ih
    | some run => rw [place_succ hrun]; omega

theorem place_eq_length (hrun : rs[k]? = none) : place rs k = rs.flatten.length := by
  rw [place, List.take_of_length_le (List.getElem?_eq_none_iff.mp hrun)]

/-- An instruction of a run, by its place among all. -/
theorem getElem?_flatten {m : Nat} (hrun : rs[k]? = some run) (hm : m < run.length) :
    rs.flatten[place rs k + m]? = run[m]? := by
  obtain ⟨hk, rfl⟩ := List.getElem?_eq_some_iff.mp hrun
  have hsplit : rs.flatten = (rs.take k).flatten ++ (rs[k] ++ (rs.drop (k + 1)).flatten) := by
    rw [← List.flatten_cons, ← List.flatten_append, ← List.drop_eq_getElem_cons hk,
      List.take_append_drop]
  rw [hsplit, place, List.getElem?_append_right (Nat.le_add_right _ _), Nat.add_sub_cancel_left,
    List.getElem?_append_left hm]

/-- Every place is that of an instruction of a run. -/
theorem exists_run {n : Nat} (hn : n < rs.flatten.length) :
    ∃ k run, rs[k]? = some run ∧ place rs k ≤ n ∧ n < place rs k + run.length := by
  induction rs generalizing n with
  | nil => simp at hn
  | cons run rest ih =>
    by_cases hm : n < run.length
    · exact ⟨0, run, rfl, by simp [place_zero], by simpa [place_zero] using hm⟩
    · rw [List.flatten_cons, List.length_append] at hn
      obtain ⟨k, run', hrun', hle, hlt⟩ := ih (by omega : n - run.length < _)
      refine ⟨k + 1, run', hrun', ?_, ?_⟩
      · rw [place_cons_succ]
        omega
      · rw [place_cons_succ]
        omega

/-! ### Blocks of runs -/

theorem blocksFrom_append (acc : List BasicBlock) (index position : Nat) :
    blocksFrom acc index position rs = acc.reverse ++ blocksFrom [] index position rs := by
  induction rs generalizing acc index position with
  | nil => simp [blocksFrom]
  | cons run rest ih =>
    simp only [blocksFrom]
    split
    · rw [ih (_ :: acc), ih [_]]
      simp
    · rw [ih]

theorem blocksFrom_cons {first last : Instruction} (hfirst : run.head? = some first)
    (hlast : run.getLast? = some last) (index position : Nat) :
    blocksFrom [] index position (run :: rs) =
      ⟨index, first.offset, last.nextOffset, position, position + run.length⟩ ::
        blocksFrom [] (index + 1) (position + run.length) rs := by
  simp only [blocksFrom, hfirst, hlast]
  rw [blocksFrom_append, List.reverse_singleton, List.singleton_append]

/-- The blocks are those of the runs, each with the number and the place of its run. -/
theorem getElem?_blocksFrom (hne : [] ∉ rs) (index position : Nat) {b : BasicBlock} :
    (blocksFrom [] index position rs)[k]? = some b ↔
      ∃ run first last, rs[k]? = some run ∧ run.head? = some first ∧ run.getLast? = some last ∧
        b = ⟨index + k, first.offset, last.nextOffset, position + place rs k,
          position + place rs k + run.length⟩ := by
  induction rs generalizing index position k with
  | nil => simp [blocksFrom]
  | cons run rest ih =>
    obtain ⟨i, inner, rfl⟩ : ∃ i inner, run = i :: inner := by
      refine List.exists_cons_of_ne_nil ?_
      rintro rfl
      exact hne List.mem_cons_self
    have hlast : (i :: inner).getLast? = some ((i :: inner).getLast (List.cons_ne_nil _ _)) :=
      List.getLast?_eq_some_getLast _
    rw [blocksFrom_cons List.head?_cons hlast]
    cases k with
    | zero =>
      rw [List.getElem?_cons_zero, List.getElem?_cons_zero]
      constructor
      · rintro ⟨⟩
        exact ⟨_, _, _, rfl, rfl, hlast, by simp [place_zero]⟩
      · rintro ⟨run, first, last, ⟨⟩, ⟨⟩, hlast', rfl⟩
        rw [hlast, Option.some_inj] at hlast'
        simp [hlast', place_zero]
    | succ k =>
      rw [List.getElem?_cons_succ, List.getElem?_cons_succ,
        ih fun hmem => hne (List.mem_cons_of_mem _ hmem)]
      simp only [place_cons_succ, Nat.add_assoc, Nat.add_comm 1 k]

end Place

/-! ### Blocks of a method body -/

/-- The runs of a method body, one for each block. -/
def blockRuns (instructions : List Instruction) (handlers : List Handler) :
    List (List Instruction) :=
  runs (leaders instructions handlers).contains instructions

theorem blockRuns_eq_splitBy : blockRuns instructions handlers =
    instructions.splitBy fun _ j => !(leaders instructions handlers).contains j.offset :=
  runs_eq_splitBy _ _

theorem flatten_blockRuns (instructions : List Instruction) (handlers : List Handler) :
    (blockRuns instructions handlers).flatten = instructions := by
  rw [blockRuns_eq_splitBy, List.flatten_splitBy]

theorem nil_not_mem_blockRuns : [] ∉ blockRuns instructions handlers := by
  rw [blockRuns_eq_splitBy]
  exact List.nil_notMem_splitBy _ _

theorem blockRun_pos {k : Nat} {run : List Instruction}
    (hrun : (blockRuns instructions handlers)[k]? = some run) : 0 < run.length := by
  refine List.length_pos_iff.mpr ?_
  rintro rfl
  exact nil_not_mem_blockRuns (List.mem_of_getElem? hrun)

theorem getElem?_blocks {k : Nat} {b : BasicBlock} :
    (ofInstructions instructions handlers).blocks[k]? = some b ↔
      ∃ run first last, (blockRuns instructions handlers)[k]? = some run ∧
        run.head? = some first ∧ run.getLast? = some last ∧
        b = ⟨k, first.offset, last.nextOffset, place (blockRuns instructions handlers) k,
          place (blockRuns instructions handlers) k + run.length⟩ := by
  refine (getElem?_blocksFrom nil_not_mem_blockRuns 0 0).trans ?_
  simp only [Nat.zero_add]

/-- Blocks begin behind instructions that end one, at the targets of these, and at the bounds and
entry points of handlers. -/
theorem mem_leaders {offset : Nat} : offset ∈ leaders instructions handlers ↔
    (∃ i ∈ instructions, i.endsBlock ∧ (offset = i.nextOffset ∨ offset ∈ flowTargets i.flow)) ∨
      ∃ h ∈ handlers, offset = h.start ∨ offset = h.stop ∨ offset = h.handler := by
  rw [leaders, Std.HashSet.mem_ofList, List.contains_iff_mem, List.mem_append, List.mem_flatMap,
    List.mem_flatMap]
  refine or_congr (exists_congr fun i => and_congr_right fun _ => ?_)
    (exists_congr fun h => and_congr_right fun _ => by simp)
  split
  · rename_i hends
    simp [hends]
  · rename_i hends
    simp [hends]

/-- A block with a leader at most in front, and behind which a leader stands or nothing. -/
structure Maximal (leaders : Std.HashSet Nat) (instructions : List Instruction) (b : BasicBlock) :
    Prop where
  lt : b.firstInstruction < b.endInstruction
  start : ∃ i, instructions[b.firstInstruction]? = some i ∧ i.offset = b.start
  stop : ∃ i, instructions[b.endInstruction - 1]? = some i ∧ i.nextOffset = b.stop
  inner : ∀ n i, b.firstInstruction < n → n < b.endInstruction → instructions[n]? = some i →
    i.offset ∉ leaders
  behind : ∀ i, instructions[b.endInstruction]? = some i → i.offset ∈ leaders

/-- An instruction of a run, among those of the body. -/
theorem getElem?_run {k m : Nat} {run : List Instruction}
    (hrun : (blockRuns instructions handlers)[k]? = some run) (hm : m < run.length) :
    instructions[place (blockRuns instructions handlers) k + m]? = run[m]? := by
  rw [← getElem?_flatten hrun hm, flatten_blockRuns]

/-- A run ends with the last instruction of its block. -/
theorem getLast?_run {k : Nat} {run : List Instruction} {b : BasicBlock}
    (hb : (ofInstructions instructions handlers).blocks[k]? = some b)
    (hrun : (blockRuns instructions handlers)[k]? = some run) :
    run.getLast? = instructions[b.endInstruction - 1]? := by
  obtain ⟨run', first, last, hrun', -, -, rfl⟩ := getElem?_blocks.mp hb
  obtain rfl : run' = run := Option.some_inj.mp (hrun'.symm.trans hrun)
  have hpos := blockRun_pos hrun
  rw [List.getLast?_eq_getElem?, ← getElem?_run hrun (by omega)]
  congr 1
  simp only
  omega

theorem maximal_of_mem_blocks {b : BasicBlock}
    (hb : b ∈ (ofInstructions instructions handlers).blocks) :
    Maximal (leaders instructions handlers) instructions b := by
  obtain ⟨k, hk⟩ := List.mem_iff_getElem?.mp hb
  obtain ⟨run, first, last, hrun, hfirst, hlast, heq⟩ := getElem?_blocks.mp hk
  have hpos := blockRun_pos hrun
  have hstop := getLast?_run hk hrun
  rw [hlast] at hstop
  subst heq
  constructor
  case lt => exact Nat.lt_add_of_pos_right hpos
  case start =>
    refine ⟨first, ?_, rfl⟩
    rw [← hfirst, List.head?_eq_getElem?]
    exact getElem?_run hrun hpos
  case stop => exact ⟨last, hstop.symm, rfl⟩
  case inner =>
    intro n i hlt hstop hi
    simp only at hlt hstop
    obtain ⟨m, rfl⟩ := Nat.exists_eq_add_of_lt hlt
    rw [Nat.add_assoc] at hi hstop
    have hchain : run.IsChain fun _ j => !(leaders instructions handlers).contains j.offset := by
      rw [blockRuns_eq_splitBy] at hrun
      exact List.isChain_of_mem_splitBy (List.mem_of_getElem? hrun)
    have hlen : m + 1 < run.length := by omega
    rw [getElem?_run hrun hlen, List.getElem?_eq_getElem hlen, Option.some_inj] at hi
    subst hi
    simpa using List.isChain_iff_getElem.mp hchain m hlen
  case behind =>
    intro i hi
    simp only at hi
    rw [← place_succ hrun] at hi
    cases hnext : (blockRuns instructions handlers)[k + 1]? with
    | none =>
      rw [place_eq_length hnext, flatten_blockRuns] at hi
      simp at hi
    | some run' =>
      have hcuts := List.isChain_getLast_head_splitBy
        (fun _ j => !(leaders instructions handlers).contains j.offset) instructions
      rw [← blockRuns_eq_splitBy, List.isChain_iff_getElem] at hcuts
      obtain ⟨hlen, rfl⟩ := List.getElem?_eq_some_iff.mp hnext
      obtain ⟨hlast', hhead, hcut⟩ := hcuts k hlen
      have hfirst' := getElem?_flatten hnext (List.length_pos_iff.mpr hhead)
      rw [flatten_blockRuns, Nat.add_zero, hi, ← List.head?_eq_getElem?,
        List.head?_eq_some_head hhead, Option.some_inj] at hfirst'
      rw [hfirst']
      simpa using hcut

theorem start_of_mem_blocks {b : BasicBlock} {i : Instruction}
    (hb : b ∈ (ofInstructions instructions handlers).blocks)
    (hi : instructions[b.firstInstruction]? = some i) : b.start = i.offset := by
  obtain ⟨first, hfirst, hstart⟩ := (maximal_of_mem_blocks hb).start
  rw [← hstart, Option.some_inj.mp (hfirst.symm.trans hi)]

theorem index_of_blocks {k : Nat} {b : BasicBlock}
    (hb : (ofInstructions instructions handlers).blocks[k]? = some b) : b.index = k := by
  obtain ⟨run, first, last, -, -, -, rfl⟩ := getElem?_blocks.mp hb
  rfl

/-- Every instruction lies in a block. -/
theorem exists_block (handlers : List Handler) {n : Nat} (hn : n < instructions.length) :
    ∃ (k : Nat) (b : BasicBlock), (ofInstructions instructions handlers).blocks[k]? = some b ∧
      b.firstInstruction ≤ n ∧ n < b.endInstruction := by
  rw [← flatten_blockRuns instructions handlers] at hn
  obtain ⟨k, run, hrun, hle, hlt⟩ := exists_run hn
  have hne := List.length_pos_iff.mp (blockRun_pos hrun)
  exact ⟨k, _, getElem?_blocks.mpr ⟨run, _, _, hrun, List.head?_eq_some_head hne,
    List.getLast?_eq_some_getLast hne, rfl⟩, hle, hlt⟩

/-- A block ends in front of all later ones. -/
theorem endInstruction_le {k l : Nat} {b c : BasicBlock}
    (hb : (ofInstructions instructions handlers).blocks[k]? = some b)
    (hc : (ofInstructions instructions handlers).blocks[l]? = some c) (hlt : k < l) :
    b.endInstruction ≤ c.firstInstruction := by
  obtain ⟨run, _, _, hrun, _, _, rfl⟩ := getElem?_blocks.mp hb
  obtain ⟨_, _, _, _, _, _, rfl⟩ := getElem?_blocks.mp hc
  simp only
  rw [← place_succ hrun]
  exact place_mono hlt

/-- Blocks begin at all leaders. -/
theorem exists_block_of_leader {m : Nat} {j : Instruction} (hj : instructions[m]? = some j)
    (hleader : j.offset ∈ leaders instructions handlers) :
    ∃ (k : Nat) (b : BasicBlock), (ofInstructions instructions handlers).blocks[k]? = some b ∧
      b.firstInstruction = m := by
  obtain ⟨k, b, hb, hle, hlt⟩ := exists_block handlers
    (List.getElem?_eq_some_iff.mp hj).1
  refine ⟨k, b, hb, hle.antisymm (Nat.le_of_not_lt fun hin => ?_)⟩
  exact (maximal_of_mem_blocks (List.mem_of_getElem? hb)).inner m j hin hlt hj hleader

/-- The numbers of the blocks by the offsets at which they start. -/
def blockStarts (blocks : List BasicBlock) : Std.HashMap Nat Nat :=
  .ofList (blocks.map fun b => (b.start, b.index))

/-- A block is found by the offset at which it starts. -/
theorem blockStarts_eq_some {stop : Nat} (htiles : Code.Tiles 0 instructions stop)
    {offset k : Nat} :
    (blockStarts (ofInstructions instructions handlers).blocks)[offset]? = some k ↔
      ∃ b, (ofInstructions instructions handlers).blocks[k]? = some b ∧ b.start = offset := by
  have hnodup : (((ofInstructions instructions handlers).blocks.map fun b =>
      (b.start, b.index)).map (·.1)).Nodup := by
    rw [List.map_map]
    refine List.pairwise_map.mpr (List.pairwise_iff_getElem.mpr fun k l hk hl hlt heq => ?_)
    have hb := List.getElem?_eq_getElem hk
    have hc := List.getElem?_eq_getElem hl
    have hbmax := maximal_of_mem_blocks (List.mem_of_getElem? hb)
    obtain ⟨i, hi, histart⟩ := hbmax.start
    obtain ⟨j, hj, hjstart⟩ := (maximal_of_mem_blocks (List.mem_of_getElem? hc)).start
    have hplace := htiles.place_unique hi hj (histart.trans (heq.trans hjstart.symm))
    have := hbmax.lt
    have := endInstruction_le hb hc hlt
    omega
  rw [blockStarts, Code.getElem?_ofList_eq_some hnodup, List.mem_map]
  constructor
  · rintro ⟨b, hb, heq⟩
    cases heq
    obtain ⟨k, hk⟩ := List.mem_iff_getElem?.mp hb
    exact ⟨b, by rw [index_of_blocks hk]; exact hk, rfl⟩
  · rintro ⟨b, hb, rfl⟩
    exact ⟨b, List.mem_of_getElem? hb, by rw [index_of_blocks hb]⟩

end ClassAtlas.BlockGraph
