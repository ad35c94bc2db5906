import ClassAtlas.Proofs.Code.StackDepth

/-!
What the computation of the stack depth finds out about underflow. Every underflow that it reports
is one of a walk. In a body that it accepts, each instruction bears the deepest walk that enters it;
shallower ones are not all looked at, so an underflow stays hidden exactly where walks enter an
instruction at different depths of which only some are deep enough.
-/

namespace ClassAtlas

namespace StackDepth

variable {instructions : List Instruction} {handlers : List Handler}

/-- Some walk through the code goes below an empty stack. -/
def Underflows (instructions : List Instruction) (handlers : List Handler) : Prop :=
  ∃ depth : Int, depth < 0 ∧ Attained instructions handlers depth

/-- A walk enters the instruction too shallow for its effect. -/
def UnderflowsAt (instructions : List Instruction) (handlers : List Handler) (i : Instruction) :
    Prop :=
  ∃ depth effect : Int, Walk instructions handlers i.offset depth ∧ i.stackEffect = .ok effect ∧
    depth + effect < 0

/-- A walk enters the instruction deep enough, and none enters it deeper. -/
def DeepestFits (instructions : List Instruction) (handlers : List Handler) (i : Instruction) :
    Prop :=
  ∃ deepest effect : Int, Walk instructions handlers i.offset deepest ∧
    (∀ depth, Walk instructions handlers i.offset depth → depth ≤ deepest) ∧
    i.stackEffect = .ok effect ∧ 0 ≤ deepest + effect

/-- The first step below zero is the effect of an instruction. -/
theorem underflows_iff :
    Underflows instructions handlers ↔ ∃ i ∈ instructions, UnderflowsAt instructions handlers i := by
  have hentered {offset : Nat} {depth : Int} (hwalk : Walk instructions handlers offset depth)
      (hneg : depth < 0) : ∃ i ∈ instructions, UnderflowsAt instructions handlers i := by
    induction hwalk with
    | start => omega
    | handler => omega
    | @step i depth effect added next hi hwalk heffect hedge ih =>
      rcases edges_added hedge with rfl | rfl
      · exact ⟨i, hi, depth, added, hwalk, heffect, hneg⟩
      · exact ih (by omega)
  constructor
  · rintro ⟨depth, hneg, offset, entry, hwalk, rfl | ⟨i, hi, rfl, effect, heffect, rfl⟩⟩
    · exact hentered hwalk hneg
    · exact ⟨i, hi, entry, effect, hwalk, heffect, hneg⟩
  · rintro ⟨i, hi, depth, effect, hwalk, heffect, hneg⟩
    exact ⟨depth + effect, hneg, i.offset, depth, hwalk, .inr ⟨i, hi, rfl, effect, heffect, rfl⟩⟩

/-! ### What a search has checked -/

/-- Entered instructions were entered by walks at the noted depths, and bear these. -/
def Checked (instructions : List Instruction) (handlers : List Handler) (known : Array Nat) :
    Prop :=
  ∀ (n : Nat) (i : Instruction) (entry : Nat), instructions[n]? = some i →
    known[n]? = some (entry + 1) → Walk instructions handlers i.offset entry ∧
      ∃ effect, i.stackEffect = .ok effect ∧ 0 ≤ (entry : Int) + effect

theorem Checked.enter {known : Array Nat} {n entry : Nat} {i : Instruction} {effect : Int}
    (h : Checked instructions handlers known) (hi : instructions[n]? = some i)
    (hn : n < known.size) (hwalk : Walk instructions handlers i.offset entry)
    (heffect : i.stackEffect = .ok effect) (hafter : 0 ≤ (entry : Int) + effect) :
    Checked instructions handlers (known.set n (entry + 1) hn) := by
  intro m j e hj hk
  by_cases hmn : n = m
  · subst hmn
    rw [hi, Option.some_inj] at hj
    rw [Array.getElem?_set_self, Option.some_inj] at hk
    obtain rfl : entry = e := by omega
    subst hj
    exact ⟨hwalk, effect, heffect, hafter⟩
  · rw [Array.getElem?_set_ne hn hmn] at hk
    exact h m j e hj hk

/-- What a search knows and has checked. -/
def Accounted (instructions : List Instruction) (handlers : List Handler) (known : Array Nat)
    (pending : List (Nat × Nat)) (deepest : Nat) : Prop :=
  Progress instructions handlers known pending deepest ∧ Checked instructions handlers known

theorem accounted_init (instructions : List Instruction) (handlers : List Handler) :
    Accounted instructions handlers (Array.replicate instructions.length 0)
      ((handlers.map fun h => (h.handler, 1)).reverse ++ [(0, 0)]) 0 := by
  refine ⟨progress_init instructions handlers, ?_⟩
  intro n i entry _ hk
  obtain ⟨_, heq⟩ := Array.getElem?_eq_some_iff.mp hk
  rw [Array.getElem_replicate] at heq
  cases heq

/-- A search that ends has checked all that it entered, and one that stops for an underflow has come
to it by a walk. -/
theorem ofInstructions_accounted {label : String} {instructions : List Instruction}
    {handlers : List Handler} (hnodup : (instructions.map (·.offset)).Nodup) :
    (∀ result, ofInstructions label instructions handlers = .ok result → instructions ≠ [] →
      ∃ known, Accounted instructions handlers known [] result) ∧
    ∀ label' offset, ofInstructions label instructions handlers =
        .error (.encode (.underflow label' offset)) →
      ∃ i ∈ instructions, i.offset = offset ∧ UnderflowsAt instructions handlers i := by
  by_cases hnil : instructions = []
  · subst hnil
    exact ⟨fun _ _ hne => absurd rfl hne, nofun⟩
  have hsearch := search_invariant label (P := Accounted instructions handlers) hnodup
    (fun hp hentered => ⟨hp.1.pass hentered, hp.2⟩)
    (fun hn hp hi hk heffect hafter =>
      ⟨hp.1.enter hi hn hk heffect hafter, hp.2.enter hi hn
        (hp.1.walked _ _ List.mem_cons_self) heffect (by omega)⟩)
    (accounted_init instructions handlers)
  rw [ofInstructions, if_neg (by simpa using hnil)]
  refine ⟨fun result hresult _ => hsearch.1 result hresult, fun label' offset herror => ?_⟩
  obtain ⟨_, _, _, entry, ⟨hprogress, -⟩, i, hi, rfl, effect, heffect, hneg⟩ :=
    hsearch.2 label' offset herror
  exact ⟨i, hi, rfl, entry, effect, hprogress.walked _ _ List.mem_cons_self, heffect, hneg⟩

/-- Once nothing is pending, the noted depth of an entered instruction is the greatest. -/
theorem Accounted.deepestFits {known : Array Nat} {deepest : Nat} {i : Instruction} {depth : Int}
    (hnodup : (instructions.map (·.offset)).Nodup)
    (h : Accounted instructions handlers known [] deepest) (hi : i ∈ instructions)
    (hwalk : Walk instructions handlers i.offset depth) :
    DeepestFits instructions handlers i := by
  have hnoted {d : Int} (hd : Walk instructions handlers i.offset d) :
      ∃ n entry : Nat, instructions[n]? = some i ∧ known[n]? = some (entry + 1) ∧ d ≤ entry := by
    obtain ⟨n, j, entry, hj, ho, hk, hle⟩ := h.1.entered hnodup hd
    obtain rfl : j = i := List.inj_on_of_nodup_map hnodup (List.mem_of_getElem? hj) hi ho
    exact ⟨n, entry, hj, hk, hle⟩
  obtain ⟨n, entry, hn, hk, -⟩ := hnoted hwalk
  obtain ⟨hentry, effect, heffect, hafter⟩ := h.2 n i entry hn hk
  refine ⟨entry, effect, hentry, fun d hd => ?_, heffect, hafter⟩
  obtain ⟨m, e, hm, hk', hle⟩ := hnoted hd
  have hinstructions : instructions.Nodup := .of_map _ hnodup
  obtain rfl : m = n :=
    (List.getElem?_inj (List.getElem?_eq_some_iff.mp hm).1 hinstructions).mp (hm.trans hn.symm)
  rw [hk, Option.some_inj] at hk'
  omega

/-- A body that is refused for an underflow decodes, and the search for its depth stops there. -/
theorem limits_eq_underflow {d : ClassDecl} {m : MethodDecl} {body : MethodBody} {label : String}
    {offset : Nat} (h : d.limits m body = .error (.encode (.underflow label offset))) :
    ∃ instructions, d.instructions body = .ok instructions ∧
      ofInstructions (m.label d.name) instructions body.handlers =
        .error (.encode (.underflow label offset)) := by
  unfold ClassDecl.limits at h
  dsimp only at h
  split at h
  · cases h
  · split at h
    · cases h
    · rename_i instructions hins
      refine ⟨instructions, hins, ?_⟩
      split at h
      · split at h
        · rename_i hdepth
          cases h
          exact hdepth
        · split at h
          · cases h
          · cases h
      · cases h

end StackDepth

/-- What limits say about underflow. If a body has limits, every instruction bears the deepest walk
that enters it, and some walk goes below zero exactly if one enters an instruction too shallow that
another enters deep enough. If a body is refused for an underflow, a walk does go below zero there. -/
theorem ClassDecl.limits_underflow_iff (d : ClassDecl) (m : MethodDecl) (body : MethodBody) :
    (∀ stack locals, d.limits m body = .ok (stack, locals) →
      ∃ instructions, d.instructions body = .ok instructions ∧
        (∀ i ∈ instructions, ∀ depth, Walk instructions body.handlers i.offset depth →
          StackDepth.DeepestFits instructions body.handlers i) ∧
        (StackDepth.Underflows instructions body.handlers ↔ ∃ i ∈ instructions,
          StackDepth.UnderflowsAt instructions body.handlers i ∧
            StackDepth.DeepestFits instructions body.handlers i)) ∧
    ∀ label offset, d.limits m body = .error (.encode (.underflow label offset)) →
      ∃ instructions, d.instructions body = .ok instructions ∧
        ∃ i ∈ instructions, i.offset = offset ∧
          StackDepth.UnderflowsAt instructions body.handlers i := by
  constructor
  · intro stack locals h
    obtain ⟨instructions, hins, hdepth⟩ := StackDepth.limits_eq_ok h
    have hnodup := (Code.decode_tiles hins).nodup
    have hfits : ∀ i ∈ instructions, ∀ depth, Walk instructions body.handlers i.offset depth →
        StackDepth.DeepestFits instructions body.handlers i := by
      intro i hi depth hwalk
      obtain ⟨known, haccounted⟩ :=
        (StackDepth.ofInstructions_accounted hnodup).1 _ hdepth (List.ne_nil_of_mem hi)
      exact haccounted.deepestFits hnodup hi hwalk
    refine ⟨instructions, hins, hfits, ?_⟩
    rw [StackDepth.underflows_iff]
    constructor
    · rintro ⟨i, hi, depth, effect, hwalk, hbelow⟩
      exact ⟨i, hi, ⟨depth, effect, hwalk, hbelow⟩, hfits i hi depth hwalk⟩
    · rintro ⟨i, hi, hunder, -⟩
      exact ⟨i, hi, hunder⟩
  · intro label offset h
    obtain ⟨instructions, hins, hdepth⟩ := StackDepth.limits_eq_underflow h
    have hnodup := (Code.decode_tiles hins).nodup
    exact ⟨instructions, hins, (StackDepth.ofInstructions_accounted hnodup).2 label offset hdepth⟩

/-!
Two arms that meet at different depths. The branch leads to the same instruction directly and over
one that pushes a number; what is there takes a value off the stack. The arm that falls through is
looked at first. When it is the one that pushes, the other is passed over; with the arms exchanged,
the body is refused.
-/

namespace Join

open StackDepth (search search_enter search_pass search_underflow)

def body (code : Bytes) : MethodBody where
  maxStack := 1
  maxLocals := 1
  code := code
  handlers := []
  attributes := []

def method (code : Bytes) : MethodDecl where
  access := ⟨0x0008⟩
  name := "pick"
  descriptor := "(I)V"
  body := some (body code)
  attributes := []

def type (code : Bytes) : ClassDecl where
  minor := 0
  major := 52
  access := ⟨0⟩
  name := "Pick"
  superName := none
  interfaces := []
  fields := []
  methods := [method code]
  attributes := []
  pool := Pool.empty

/-- The arm that falls through pushes a number. -/
def deepFirst : Bytes := [0x1A, 0x99, 0, 4, 0x03, 0x57, 0xB1]

/-- The arm that is jumped to pushes a number. -/
def shallowFirst : Bytes := [0x1A, 0x99, 0, 6, 0xA7, 0, 4, 0x03, 0x57, 0xB1]

def deepInstructions : List Instruction :=
  [⟨0, 0x1A, 1, false, .slot 0⟩, ⟨1, 0x99, 3, false, .jump 5⟩, ⟨4, 0x03, 1, false, .none⟩,
    ⟨5, 0x57, 1, false, .none⟩, ⟨6, 0xB1, 1, false, .none⟩]

def shallowInstructions : List Instruction :=
  [⟨0, 0x1A, 1, false, .slot 0⟩, ⟨1, 0x99, 3, false, .jump 7⟩, ⟨4, 0xA7, 3, false, .jump 8⟩,
    ⟨7, 0x03, 1, false, .none⟩, ⟨8, 0x57, 1, false, .none⟩, ⟨9, 0xB1, 1, false, .none⟩]

theorem decode_deepFirst :
    (type deepFirst).instructions (body deepFirst) = .ok deepInstructions := by
  decide

theorem decode_shallowFirst :
    (type shallowFirst).instructions (body shallowFirst) = .ok shallowInstructions := by
  decide

theorem depth_deepFirst (label : String) :
    StackDepth.ofInstructions label deepInstructions [] = .ok 1 := by
  have hnodup : (deepInstructions.map (·.offset)).Nodup := by decide
  let l := Listing.ofList deepInstructions
  calc StackDepth.ofInstructions label deepInstructions []
    _ = search label l #[0, 0, 0, 0, 0] [(0, 0)] 0 := if_neg (by decide)
    _ = search label l #[1, 0, 0, 0, 0] [(1, 1)] 1 := search_enter label hnodup 0 1
    _ = search label l #[1, 2, 0, 0, 0] [(4, 0), (5, 0)] 1 := search_enter label hnodup 1 0
    _ = search label l #[1, 2, 1, 0, 0] [(5, 1), (5, 0)] 1 := search_enter label hnodup 2 1
    _ = search label l #[1, 2, 1, 2, 0] [(6, 0), (5, 0)] 1 := search_enter label hnodup 3 0
    _ = search label l #[1, 2, 1, 2, 1] [(5, 0)] 1 := search_enter label hnodup 4 0
    -- the shallow arm comes last and is not looked at
    _ = search label l #[1, 2, 1, 2, 1] [] 1 := search_pass label hnodup 3
    _ = .ok 1 := by rw [search]

theorem depth_shallowFirst (label : String) :
    StackDepth.ofInstructions label shallowInstructions [] =
      .error (.encode (.underflow label 8)) := by
  have hnodup : (shallowInstructions.map (·.offset)).Nodup := by decide
  let l := Listing.ofList shallowInstructions
  calc StackDepth.ofInstructions label shallowInstructions []
    _ = search label l #[0, 0, 0, 0, 0, 0] [(0, 0)] 0 := if_neg (by decide)
    _ = search label l #[1, 0, 0, 0, 0, 0] [(1, 1)] 1 := search_enter label hnodup 0 1
    _ = search label l #[1, 2, 0, 0, 0, 0] [(4, 0), (7, 0)] 1 := search_enter label hnodup 1 0
    _ = search label l #[1, 2, 1, 0, 0, 0] [(8, 0), (7, 0)] 1 := search_enter label hnodup 2 0
    _ = .error (.encode (.underflow label 8)) := search_underflow label hnodup 4 (-1)

theorem limits_eq (code : Bytes) {instructions : List Instruction}
    (hins : (type code).instructions (body code) = .ok instructions)
    (hlocals : localsOf (method code) ⟨["I"], "V"⟩ instructions = 1) :
    (type code).limits (method code) (body code) =
      match StackDepth.ofInstructions "Pick.pick(I)V" instructions [] with
      | .error e => .error e
      | .ok depth =>
        if depth < 65536 then .ok (depth.toUInt16, 1)
        else .error (.encode (.stackLimit "Pick.pick(I)V" depth)) := by
  have htype : MethodType.parse "(I)V" = .ok ⟨["I"], "V"⟩ := by decide
  change MethodType.parse (method code).descriptor = _ at htype
  rw [ClassDecl.limits, htype, hins]
  dsimp only
  rw [hlocals]
  rfl

theorem shallow_arm_passed_over :
    (type deepFirst).limits (method deepFirst) (body deepFirst) = .ok (1, 1) ∧
    (type shallowFirst).limits (method shallowFirst) (body shallowFirst) =
      .error (.encode (.underflow "Pick.pick(I)V" 8)) ∧
    (StackDepth.Underflows deepInstructions [] ∧ ∃ i ∈ deepInstructions,
      StackDepth.UnderflowsAt deepInstructions [] i ∧ StackDepth.DeepestFits deepInstructions [] i) ∧
    ∃ i ∈ shallowInstructions, i.offset = 8 ∧ StackDepth.UnderflowsAt shallowInstructions [] i := by
  have haccepted : (type deepFirst).limits (method deepFirst) (body deepFirst) = .ok (1, 1) := by
    rw [limits_eq deepFirst decode_deepFirst (by decide), depth_deepFirst]
    rfl
  have hrefused : (type shallowFirst).limits (method shallowFirst) (body shallowFirst) =
      .error (.encode (.underflow "Pick.pick(I)V" 8)) := by
    rw [limits_eq shallowFirst decode_shallowFirst (by decide), depth_shallowFirst]
  -- the walk that takes the branch comes to the instruction with nothing on the stack
  have hunder : StackDepth.Underflows deepInstructions [] := by
    have hload : (⟨0, 0x1A, 1, false, .slot 0⟩ : Instruction) ∈ deepInstructions ∧
        Instruction.stackEffect ⟨0, 0x1A, 1, false, .slot 0⟩ = .ok 1 := by decide
    have htest : (⟨1, 0x99, 3, false, .jump 5⟩ : Instruction) ∈ deepInstructions ∧
        Instruction.stackEffect ⟨1, 0x99, 3, false, .jump 5⟩ = .ok (-1) := by decide
    have hloaded : Walk deepInstructions [] 1 (0 + 1) := .step hload.1 .start hload.2 (by decide)
    have htested : Walk deepInstructions [] 5 (0 + 1 + -1) :=
      .step htest.1 hloaded htest.2 (by decide)
    exact StackDepth.underflows_iff.mpr ⟨⟨5, 0x57, 1, false, .none⟩, by decide, _, -1, htested,
      by decide, by decide⟩
  obtain ⟨instructions, hins, -, hiff⟩ :=
    (ClassDecl.limits_underflow_iff (type deepFirst) (method deepFirst) (body deepFirst)).1 1 1
      haccepted
  obtain ⟨instructions', hins', hat⟩ :=
    (ClassDecl.limits_underflow_iff (type shallowFirst) (method shallowFirst) (body shallowFirst)).2
      _ _ hrefused
  rw [decode_deepFirst, Except.ok.injEq] at hins
  rw [decode_shallowFirst, Except.ok.injEq] at hins'
  subst hins hins'
  exact ⟨haccepted, hrefused, ⟨hunder, hiff.mp hunder⟩, hat⟩

end Join

end ClassAtlas
