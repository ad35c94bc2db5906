import ClassAtlas.Code.StackDepth
import ClassAtlas.Proofs.Code.Tiling
import Mathlib.Data.List.Nodup

/-!
The stack depth of a method body is exact. Control flow is a graph of instruction offsets whose
edges are weighted with the effect on the operand stack; the search that computes the depth visits
everything that a walk through this graph can reach, no walk climbs above its result, and one does
reach it.
-/

namespace ClassAtlas

/-- The ways out of an instruction with the given effect: where control goes on, and what is added
to the depth on the way. Control comes back from a subroutine with nothing added. -/
def Instruction.edges (i : Instruction) (effect : Int) : List (Nat × Int) :=
  match i.flow with
  | .next => [(i.nextOffset, effect)]
  | .goto target => [(target, effect)]
  | .branch target => [(target, effect), (i.nextOffset, effect)]
  | .subroutine target => [(target, effect), (i.nextOffset, 0)]
  | .switch default targets => (default, effect) :: targets.map (·, effect)
  | .exit => []

/-- A finite walk through the code enters the offset at the depth. Walks start with an empty stack
in front and with one value at the handlers. -/
inductive Walk (instructions : List Instruction) (handlers : List Handler) : Nat → Int → Prop
  | start : Walk instructions handlers 0 0
  | handler {h : Handler} (hmem : h ∈ handlers) : Walk instructions handlers h.handler 1
  | step {i : Instruction} {depth effect added : Int} {next : Nat} (hi : i ∈ instructions)
      (hwalk : Walk instructions handlers i.offset depth) (heffect : i.stackEffect = .ok effect)
      (hedge : (next, added) ∈ i.edges effect) : Walk instructions handlers next (depth + added)

namespace Listing

/-- In a listing without repeated offsets, an offset is found exactly where its instruction is. -/
theorem positions_ofList {instructions : List Instruction}
    (hnodup : (instructions.map (·.offset)).Nodup) (offset n : Nat) :
    (ofList instructions).positions[offset]? = some n ↔
      ∃ i, instructions[n]? = some i ∧ i.offset = offset := by
  have hkeys : (instructions.zipIdx.map fun x => (x.1.offset, x.2)).map (·.1) =
      instructions.map (·.offset) := by
    calc (instructions.zipIdx.map fun x => (x.1.offset, x.2)).map (·.1)
        = (instructions.zipIdx.map (·.1)).map (·.offset) := by rw [List.map_map, List.map_map]; rfl
      _ = instructions.map (·.offset) := by rw [List.zipIdx_map_fst]
  refine (Code.getElem?_ofList_eq_some (hkeys ▸ hnodup)).trans ?_
  simp only [List.mem_map, Prod.exists, List.mk_mem_zipIdx_iff_getElem?, Prod.mk.injEq]
  constructor
  · rintro ⟨i, k, hi, rfl, rfl⟩
    exact ⟨i, hi, rfl⟩
  · rintro ⟨i, hi, rfl⟩
    exact ⟨i, n, hi, rfl, rfl⟩

theorem item_ofList {instructions : List Instruction} {n : Nat} {i : Instruction}
    (hi : instructions[n]? = some i) (hn : n < (ofList instructions).items.size) :
    (ofList instructions).items[n] = i := by
  simp only [ofList, List.getElem_toArray]
  exact (List.getElem?_eq_some_iff.mp hi).2

end Listing

namespace StackDepth

/-! ### Single steps of a search -/

section Steps

variable {instructions : List Instruction} {known : Array Nat} {pending : List (Nat × Nat)}
  {deepest entry : Nat}

/-- An instruction that was not entered as deep before is entered, and control goes on from it. -/
theorem search_enter (label : String) (hnodup : (instructions.map (·.offset)).Nodup) (n after : Nat)
    (hi : n < instructions.length := by decide) (hn : n < known.size := by decide)
    (hk : known[n] ≤ entry := by decide)
    (hlimit : entry ≤ (Listing.ofList instructions).depthLimit := by decide)
    (heffect : instructions[n].stackEffect = .ok ((after : Int) - entry) := by decide) :
    search label (Listing.ofList instructions) known ((instructions[n].offset, entry) :: pending)
      deepest =
    search label (Listing.ofList instructions) (known.set n (entry + 1) hn)
      ((instructions[n].successors entry after).reverse ++ pending)
      (max (max deepest entry) after) := by
  have hfound := (Listing.positions_ofList hnodup _ n).mpr ⟨_, List.getElem?_eq_getElem hi, rfl⟩
  have hlen : n < (Listing.ofList instructions).items.size := hi
  have hitem := Listing.item_ofList (List.getElem?_eq_getElem hi) hlen
  have hafter : (entry : Int) + (after - entry) = after := by omega
  conv_lhs => rw [search]
  simp only [hfound]
  rw [dif_pos ⟨hn, hlen⟩, dif_neg (Nat.not_lt_of_le hk), dif_neg (Nat.not_lt_of_le hlimit)]
  simp only [hitem, heffect, hafter, Int.toNat_natCast]
  rw [if_neg (by omega)]

/-- An instruction that was entered as deep before is passed over. -/
theorem search_pass (label : String) (hnodup : (instructions.map (·.offset)).Nodup) (n : Nat)
    (hi : n < instructions.length := by decide) (hn : n < known.size := by decide)
    (hk : entry < known[n] := by decide) :
    search label (Listing.ofList instructions) known ((instructions[n].offset, entry) :: pending)
      deepest = search label (Listing.ofList instructions) known pending deepest := by
  have hfound := (Listing.positions_ofList hnodup _ n).mpr ⟨_, List.getElem?_eq_getElem hi, rfl⟩
  have hlen : n < (Listing.ofList instructions).items.size := hi
  conv_lhs => rw [search]
  simp only [hfound]
  rw [dif_pos ⟨hn, hlen⟩, dif_pos hk]

/-- An instruction that takes more than there is stops the search. -/
theorem search_underflow (label : String) (hnodup : (instructions.map (·.offset)).Nodup) (n : Nat)
    (effect : Int) (hi : n < instructions.length := by decide) (hn : n < known.size := by decide)
    (hk : known[n] ≤ entry := by decide)
    (hlimit : entry ≤ (Listing.ofList instructions).depthLimit := by decide)
    (heffect : instructions[n].stackEffect = .ok effect := by decide)
    (hafter : (entry : Int) + effect < 0 := by decide) :
    search label (Listing.ofList instructions) known ((instructions[n].offset, entry) :: pending)
      deepest = .error (.encode (.underflow label instructions[n].offset)) := by
  have hfound := (Listing.positions_ofList hnodup _ n).mpr ⟨_, List.getElem?_eq_getElem hi, rfl⟩
  have hlen : n < (Listing.ofList instructions).items.size := hi
  have hitem := Listing.item_ofList (List.getElem?_eq_getElem hi) hlen
  rw [search]
  simp only [hfound]
  rw [dif_pos ⟨hn, hlen⟩, dif_neg (Nat.not_lt_of_le hk), dif_neg (Nat.not_lt_of_le hlimit)]
  simp only [hitem, heffect]
  rw [if_pos hafter]

end Steps

/-! ### What a search knows -/

variable (instructions : List Instruction)

/-- The instruction at the offset is known to be entered at the depth or deeper. -/
def Entered (known : Array Nat) (offset : Nat) (depth : Int) : Prop :=
  ∃ (n : Nat) (i : Instruction) (entry : Nat), instructions[n]? = some i ∧ i.offset = offset ∧
    known[n]? = some (entry + 1) ∧ depth ≤ entry

/-- The instruction at the offset is entered at the depth or deeper, or is still to be. -/
def Covered (known : Array Nat) (pending : List (Nat × Nat)) (offset : Nat) (depth : Int) : Prop :=
  Entered instructions known offset depth ∨ ∃ entry, (offset, entry) ∈ pending ∧ depth ≤ entry

/-- A walk enters an instruction at the depth or leaves one at it. -/
def Attained (handlers : List Handler) (depth : Int) : Prop :=
  ∃ offset entry, Walk instructions handlers offset entry ∧
    (entry = depth ∨ ∃ i ∈ instructions, i.offset = offset ∧
      ∃ effect, i.stackEffect = .ok effect ∧ entry + effect = depth)

/-- What a search knows at any time. Whatever is pending is reached by a walk; the roots, and
whatever an entered instruction leads to, are covered; entered instructions stay below the greatest
depth, and that depth is attained. -/
structure Progress (handlers : List Handler) (known : Array Nat) (pending : List (Nat × Nat))
    (deepest : Nat) : Prop where
  walked : ∀ offset entry, (offset, entry) ∈ pending → Walk instructions handlers offset entry
  start : Covered instructions known pending 0 0
  handler : ∀ h ∈ handlers, Covered instructions known pending h.handler 1
  closed : ∀ (n : Nat) (i : Instruction) (entry : Nat),
    instructions[n]? = some i → known[n]? = some (entry + 1) →
    ∃ effect, i.stackEffect = .ok effect ∧ entry ≤ deepest ∧ entry + effect ≤ deepest ∧
      ∀ next added, (next, added) ∈ i.edges effect →
        Covered instructions known pending next (entry + added)
  attained : Attained instructions handlers deepest

variable {instructions}

theorem Covered.of_le {known : Array Nat} {pending : List (Nat × Nat)} {offset : Nat}
    {depth depth' : Int} (h : Covered instructions known pending offset depth)
    (hle : depth' ≤ depth) : Covered instructions known pending offset depth' := by
  rcases h with ⟨n, i, entry, hi, ho, hk, hd⟩ | ⟨entry, hmem, hd⟩
  · exact .inl ⟨n, i, entry, hi, ho, hk, Int.le_trans hle hd⟩
  · exact .inr ⟨entry, hmem, Int.le_trans hle hd⟩

/-- Cover is kept when entered instructions stay entered and pending ones stay covered. -/
theorem Covered.mono {known known' : Array Nat} {pending pending' : List (Nat × Nat)}
    (hknown : ∀ offset depth, Entered instructions known offset depth →
      Entered instructions known' offset depth)
    (hpending : ∀ offset entry, (offset, entry) ∈ pending →
      Covered instructions known' pending' offset entry)
    {offset : Nat} {depth : Int} (h : Covered instructions known pending offset depth) :
    Covered instructions known' pending' offset depth := by
  rcases h with h | ⟨entry, hmem, hd⟩
  · exact .inl (hknown offset depth h)
  · exact (hpending offset entry hmem).of_le hd

/-- What is noted after an instruction is what its edges lead to. -/
theorem mem_successors {i : Instruction} {entry after next there : Nat} {effect : Int}
    (hafter : (after : Int) = entry + effect) :
    (next, there) ∈ i.successors entry after ↔
      ∃ added, (next, added) ∈ i.edges effect ∧ (there : Int) = entry + added := by
  unfold Instruction.successors Instruction.edges
  cases i.flow with
  | next => grind
  | goto target => grind
  | branch target => grind
  | subroutine target => grind
  | switch default targets =>
    simp only [List.mem_cons, List.mem_map, Prod.mk.injEq]
    constructor
    · rintro (⟨rfl, rfl⟩ | ⟨target, htarget, rfl, rfl⟩)
      · exact ⟨effect, .inl ⟨rfl, rfl⟩, hafter⟩
      · exact ⟨effect, .inr ⟨_, htarget, rfl, rfl⟩, hafter⟩
    · rintro ⟨added, ⟨rfl, rfl⟩ | ⟨target, htarget, rfl, rfl⟩, hthere⟩
      · exact .inl ⟨rfl, by omega⟩
      · exact .inr ⟨_, htarget, rfl, by omega⟩
  | exit => grind

/-- An edge adds the whole effect or, behind a subroutine, nothing. -/
theorem edges_added {i : Instruction} {next : Nat} {effect added : Int}
    (h : (next, added) ∈ i.edges effect) : added = effect ∨ added = 0 := by
  unfold Instruction.edges at h
  cases hflow : i.flow <;> rw [hflow] at h <;> grind

variable {handlers : List Handler} {known : Array Nat} {pending : List (Nat × Nat)}
  {deepest offset entry : Nat}

/-- A place that was entered as deep before can be passed over. -/
theorem Progress.pass (h : Progress instructions handlers known ((offset, entry) :: pending) deepest)
    (hentered : Entered instructions known offset entry) :
    Progress instructions handlers known pending deepest := by
  have hcover {o : Nat} {depth : Int}
      (hc : Covered instructions known ((offset, entry) :: pending) o depth) :
      Covered instructions known pending o depth := by
    refine hc.mono (fun _ _ he => he) ?_
    intro o e hmem
    rcases List.mem_cons.mp hmem with heq | hmem
    · cases heq
      exact .inl hentered
    · exact .inr ⟨e, hmem, Int.le_refl _⟩
  refine ⟨fun o e hmem => h.walked o e (List.mem_cons_of_mem _ hmem), hcover h.start,
    fun x hx => hcover (h.handler x hx), ?_, h.attained⟩
  intro n i e hi hk
  obtain ⟨effect, heffect, hbelow, hafter, hedges⟩ := h.closed n i e hi hk
  exact ⟨effect, heffect, hbelow, hafter, fun next added hedge => hcover (hedges next added hedge)⟩

/-- Entering an instruction deeper than before, and noting where control goes on. -/
theorem Progress.enter {n after : Nat} {i : Instruction} {effect : Int}
    (h : Progress instructions handlers known ((i.offset, entry) :: pending) deepest)
    (hi : instructions[n]? = some i) (hn : n < known.size) (hknown : known[n] ≤ entry)
    (heffect : i.stackEffect = .ok effect) (hafter : (after : Int) = entry + effect) :
    Progress instructions handlers (known.set n (entry + 1) hn)
      ((i.successors entry after).reverse ++ pending) (max (max deepest entry) after) := by
  have hmem : i ∈ instructions := List.mem_of_getElem? hi
  have hwalk : Walk instructions handlers i.offset entry :=
    h.walked i.offset entry List.mem_cons_self
  have hset : (known.set n (entry + 1) hn)[n]? = some (entry + 1) := by
    simp
  have hentered {o : Nat} {depth : Int} (he : Entered instructions known o depth) :
      Entered instructions (known.set n (entry + 1) hn) o depth := by
    obtain ⟨m, j, e, hj, ho, hk, hd⟩ := he
    by_cases hmn : n = m
    · subst hmn
      rw [Array.getElem?_eq_getElem hn, Option.some_inj] at hk
      exact ⟨n, j, entry, hj, ho, hset, by omega⟩
    · exact ⟨m, j, e, hj, ho, by rw [Array.getElem?_set_ne hn hmn, hk], hd⟩
  have hcover {o : Nat} {depth : Int}
      (hc : Covered instructions known ((i.offset, entry) :: pending) o depth) :
      Covered instructions (known.set n (entry + 1) hn)
        ((i.successors entry after).reverse ++ pending) o depth := by
    refine hc.mono (fun _ _ he => hentered he) ?_
    intro o e hpend
    rcases List.mem_cons.mp hpend with heq | hpend
    · cases heq
      exact .inl ⟨n, i, entry, hi, rfl, hset, Int.le_refl _⟩
    · exact .inr ⟨e, List.mem_append_right _ hpend, Int.le_refl _⟩
  refine ⟨?_, hcover h.start, fun x hx => hcover (h.handler x hx), ?_, ?_⟩
  · intro o e hpend
    rcases List.mem_append.mp hpend with hnew | hold
    · obtain ⟨added, hedge, hdepth⟩ := (mem_successors hafter).mp (List.mem_reverse.mp hnew)
      rw [hdepth]
      exact .step hmem hwalk heffect hedge
    · exact h.walked o e (List.mem_cons_of_mem _ hold)
  · intro m j e hj hk
    by_cases hmn : n = m
    · subst hmn
      rw [hi, Option.some_inj] at hj
      rw [hset, Option.some_inj] at hk
      subst hj
      obtain rfl : entry = e := by omega
      refine ⟨effect, heffect, by omega, by omega, ?_⟩
      intro next added hedge
      -- control goes on at the depth behind the instruction or at the one before it
      have hnat : ((entry : Int) + added).toNat = (entry : Int) + added := by
        rcases edges_added hedge with rfl | rfl <;> omega
      refine .inr ⟨((entry : Int) + added).toNat, ?_, Int.le_of_eq hnat.symm⟩
      refine List.mem_append_left _ (List.mem_reverse.mpr ?_)
      exact (mem_successors hafter).mpr ⟨added, hedge, hnat⟩
    · rw [Array.getElem?_set_ne hn hmn] at hk
      obtain ⟨effect', heffect', hbelow, hafter', hedges⟩ := h.closed m j e hj hk
      exact ⟨effect', heffect', by omega, by omega,
        fun next added hedge => hcover (hedges next added hedge)⟩
  · have hcases : max (max deepest entry) after = deepest ∨
        max (max deepest entry) after = entry ∨ max (max deepest entry) after = after := by
      omega
    rcases hcases with heq | heq | heq
    · rw [heq]
      exact h.attained
    · rw [heq]
      exact ⟨i.offset, entry, hwalk, .inl rfl⟩
    · rw [heq]
      exact ⟨i.offset, entry, hwalk, .inr ⟨i, hmem, rfl, effect, heffect, hafter.symm⟩⟩

/-- What holds at the start of a search and is kept when a place is passed over and when an
instruction is entered holds at its end, and where it stops for an underflow. -/
theorem search_invariant (label : String) {P : Array Nat → List (Nat × Nat) → Nat → Prop}
    (hnodup : (instructions.map (·.offset)).Nodup)
    (hpass : ∀ {known pending deepest offset entry},
      P known ((offset, entry) :: pending) deepest →
      Entered instructions known offset entry → P known pending deepest)
    (henter : ∀ {known pending deepest entry n i effect} {after : Nat} (hn : n < known.size),
      P known ((i.offset, entry) :: pending) deepest → instructions[n]? = some i →
      known[n] ≤ entry → i.stackEffect = .ok effect → (after : Int) = entry + effect →
      P (known.set n (entry + 1) hn) ((i.successors entry after).reverse ++ pending)
        (max (max deepest entry) after))
    (h : P known pending deepest) :
    (∀ result, search label (Listing.ofList instructions) known pending deepest = .ok result →
      ∃ known', P known' [] result) ∧
    ∀ label' offset, search label (Listing.ofList instructions) known pending deepest =
        .error (.encode (.underflow label' offset)) →
      ∃ known' pending' deepest' entry, P known' ((offset, entry) :: pending') deepest' ∧
        ∃ i ∈ instructions, i.offset = offset ∧ ∃ effect, i.stackEffect = .ok effect ∧
          (entry : Int) + effect < 0 := by
  fun_induction search label (Listing.ofList instructions) known pending deepest with
  | case1 known deepest =>
    refine ⟨fun result hresult => ?_, nofun⟩
    cases hresult
    exact ⟨known, h⟩
  | case3 known deepest offset entry pending n hn hsize hk ih =>
    obtain ⟨i, hi, rfl⟩ := (Listing.positions_ofList hnodup offset n).mp hn
    obtain ⟨k, hkn⟩ : ∃ k, known[n] = k + 1 := ⟨known[n] - 1, by omega⟩
    refine ih (hpass h ⟨n, i, k, hi, rfl, ?_, by omega⟩)
    rw [Array.getElem?_eq_getElem hsize.1, hkn]
  | case6 known deepest offset entry pending n hn hsize hk _ i effect heffect after hafter =>
    obtain ⟨j, hj, rfl⟩ := (Listing.positions_ofList hnodup offset n).mp hn
    refine ⟨nofun, fun label' offset' herror => ?_⟩
    cases herror
    refine ⟨known, pending, deepest, entry, h, j, List.mem_of_getElem? hj, rfl, effect, ?_, hafter⟩
    rw [← Listing.item_ofList hj hsize.2]
    exact heffect
  | case7 known deepest offset entry pending n hn hsize hk _ i effect heffect after hafter ih =>
    obtain ⟨j, hj, rfl⟩ := (Listing.positions_ofList hnodup offset n).mp hn
    obtain rfl : i = j := Listing.item_ofList hj hsize.2
    have hnat : (after.toNat : Int) = entry + effect := Int.toNat_of_nonneg (by omega)
    exact ih (henter hsize.1 h hj (by omega) heffect hnat)
  | _ => exact ⟨nofun, nofun⟩

/-- A search that ends has entered all it had to. -/
theorem search_progress {label : String} {known : Array Nat} {pending : List (Nat × Nat)}
    {deepest result : Nat} (hnodup : (instructions.map (·.offset)).Nodup)
    (h : Progress instructions handlers known pending deepest)
    (hsearch : search label (Listing.ofList instructions) known pending deepest = .ok result) :
    ∃ known', Progress instructions handlers known' [] result :=
  (search_invariant label (P := Progress instructions handlers) hnodup (fun hp => hp.pass)
    (fun hn hp hi hk he ha => hp.enter hi hn hk he ha) h).1 result hsearch

/-- When nothing is pending any more, every walk is below an entered depth. -/
theorem Progress.entered {handlers : List Handler} {known : Array Nat} {deepest offset : Nat}
    {depth : Int} (hnodup : (instructions.map (·.offset)).Nodup)
    (h : Progress instructions handlers known [] deepest)
    (hwalk : Walk instructions handlers offset depth) :
    Entered instructions known offset depth := by
  have hentered {o : Nat} {d : Int} (hc : Covered instructions known [] o d) :
      Entered instructions known o d := by
    rcases hc with he | ⟨_, hmem, _⟩
    · exact he
    · cases hmem
  induction hwalk with
  | start => exact hentered h.start
  | handler hmem => exact hentered (h.handler _ hmem)
  | @step i depth effect added next hi _ heffect hedge ih =>
    obtain ⟨n, j, entry, hj, ho, hk, hd⟩ := ih
    obtain rfl : j = i := List.inj_on_of_nodup_map hnodup (List.mem_of_getElem? hj) hi ho
    obtain ⟨effect', heffect', _, _, hedges⟩ := h.closed n j entry hj hk
    rw [heffect, Except.ok.injEq] at heffect'
    subst heffect'
    exact hentered ((hedges next added hedge).of_le (by omega))

theorem progress_init (instructions : List Instruction) (handlers : List Handler) :
    Progress instructions handlers (Array.replicate instructions.length 0)
      ((handlers.map fun h => (h.handler, 1)).reverse ++ [(0, 0)]) 0 := by
  refine ⟨?_, ?_, ?_, ?_, ⟨0, 0, .start, .inl rfl⟩⟩
  · intro offset entry hmem
    rcases List.mem_append.mp hmem with hmem | hmem
    · obtain ⟨h, hh, heq⟩ := List.mem_map.mp (List.mem_reverse.mp hmem)
      cases heq
      exact .handler hh
    · cases List.mem_singleton.mp hmem
      exact .start
  · exact .inr ⟨0, List.mem_append_right _ (List.mem_singleton.mpr rfl), Int.le_refl _⟩
  · intro h hh
    refine .inr ⟨1, List.mem_append_left _ (List.mem_reverse.mpr ?_), Int.le_refl _⟩
    exact List.mem_map_of_mem hh
  · intro n i entry _ hk
    obtain ⟨_, heq⟩ := Array.getElem?_eq_some_iff.mp hk
    rw [Array.getElem_replicate] at heq
    cases heq

/-- The computed depth bounds every walk, and a walk attains it. -/
theorem ofInstructions_exact {label : String} {instructions : List Instruction}
    {handlers : List Handler} {result : Nat} (hne : instructions ≠ [])
    (hnodup : (instructions.map (·.offset)).Nodup)
    (h : ofInstructions label instructions handlers = .ok result) :
    (∀ offset depth, Walk instructions handlers offset depth →
      ∃ i ∈ instructions, i.offset = offset ∧ ∃ effect, i.stackEffect = .ok effect ∧
        depth ≤ result ∧ depth + effect ≤ result ∧
        ∀ next added, (next, added) ∈ i.edges effect → ∃ j ∈ instructions, j.offset = next) ∧
    Attained instructions handlers result := by
  unfold ofInstructions at h
  rw [if_neg (by simpa using hne)] at h
  obtain ⟨known, hprogress⟩ := search_progress hnodup (progress_init instructions handlers) h
  refine ⟨?_, hprogress.attained⟩
  intro offset depth hwalk
  obtain ⟨n, i, entry, hi, ho, hk, hd⟩ := hprogress.entered hnodup hwalk
  obtain ⟨effect, heffect, hbelow, hafter, _⟩ := hprogress.closed n i entry hi hk
  refine ⟨i, List.mem_of_getElem? hi, ho, effect, heffect, by omega, by omega, ?_⟩
  intro next added hedge
  subst ho
  have hnext := hwalk.step (List.mem_of_getElem? hi) heffect hedge
  obtain ⟨m, j, _, hj, hoffset, _⟩ := hprogress.entered hnodup hnext
  exact ⟨j, List.mem_of_getElem? hj, hoffset⟩

/-- A body with limits decodes, and its stack limit is the computed depth. -/
theorem limits_eq_ok {d : ClassDecl} {m : MethodDecl} {body : MethodBody} {stack locals : UInt16}
    (h : d.limits m body = .ok (stack, locals)) :
    ∃ instructions, d.instructions body = .ok instructions ∧
      ofInstructions (m.label d.name) instructions body.handlers = .ok stack.toNat := by
  unfold ClassDecl.limits at h
  dsimp only at h
  cases htype : MethodType.parse m.descriptor with
  | error e => rw [htype] at h; cases h
  | ok type =>
    cases hins : d.instructions body with
    | error e => rw [htype, hins] at h; cases h
    | ok instructions =>
      rw [htype, hins] at h
      dsimp only at h
      split at h
      · cases hdepth : ofInstructions (m.label d.name) instructions body.handlers with
        | error e => rw [hdepth] at h; cases h
        | ok depth =>
          rw [hdepth] at h
          dsimp only at h
          split at h
          · rename_i hlt
            cases h
            refine ⟨instructions, rfl, ?_⟩
            rw [hdepth, Nat.toUInt16, UInt16.toNat_ofNat_of_lt' hlt]
          · cases h
      · cases h

end StackDepth

/-- The stack limit of a body that is not empty is the exact depth of its operand stack: every walk
stays on instructions of known effect, does not climb above the limit before or behind one and is
led to instructions by all edges, and some walk attains the limit. -/
theorem ClassDecl.limits_stack_exact {d : ClassDecl} {m : MethodDecl} {body : MethodBody}
    {stack locals : UInt16} (hcode : body.code ≠ [])
    (h : d.limits m body = .ok (stack, locals)) :
    ∃ instructions, d.instructions body = .ok instructions ∧
      (instructions.map (·.offset)).Nodup ∧
      (∀ offset depth, Walk instructions body.handlers offset depth →
        ∃ i ∈ instructions, i.offset = offset ∧ ∃ effect, i.stackEffect = .ok effect ∧
          depth ≤ stack.toNat ∧ depth + effect ≤ stack.toNat ∧
          ∀ next added, (next, added) ∈ i.edges effect → ∃ j ∈ instructions, j.offset = next) ∧
      StackDepth.Attained instructions body.handlers stack.toNat := by
  obtain ⟨instructions, hins, hdepth⟩ := StackDepth.limits_eq_ok h
  have htiles : Code.Tiles 0 instructions body.code.length := Code.decode_tiles hins
  have hne : instructions ≠ [] := by
    obtain ⟨i, hi, _⟩ := htiles.head (by simpa using hcode)
    exact List.ne_nil_of_mem hi
  obtain ⟨hbound, hattained⟩ := StackDepth.ofInstructions_exact hne htiles.nodup hdepth
  exact ⟨instructions, hins, htiles.nodup, hbound, hattained⟩

/-- A body that pushes a number and tests it, over and over until the test fails. -/
def loopBody : MethodBody where
  maxStack := 0
  maxLocals := 0
  code := [0x03, 0x99, 0xFF, 0xFF, 0xB1]
  handlers := []
  attributes := []

def loopMethod : MethodDecl where
  access := ⟨0x0008⟩
  name := "loop"
  descriptor := "()V"
  body := some loopBody
  attributes := []

def loopClass : ClassDecl where
  minor := 0
  major := 52
  access := ⟨0⟩
  name := "Loop"
  superName := none
  interfaces := []
  fields := []
  methods := [loopMethod]
  attributes := []
  pool := Pool.empty

def loopInstructions : List Instruction :=
  [⟨0, 0x03, 1, false, .none⟩, ⟨1, 0x99, 3, false, .jump 0⟩, ⟨4, 0xB1, 1, false, .none⟩]

theorem loopClass_limits : loopClass.limits loopMethod loopBody = .ok (1, 0) := by
  have htype : MethodType.parse loopMethod.descriptor = .ok ⟨[], "V"⟩ := by decide
  have hins : loopClass.instructions loopBody = .ok loopInstructions := by decide
  have hlocals : localsOf loopMethod ⟨[], "V"⟩ loopInstructions = 0 := by decide
  have hnodup : (loopInstructions.map (·.offset)).Nodup := by decide
  have hdepth (label : String) :
      StackDepth.ofInstructions label loopInstructions loopBody.handlers = .ok 1 := by
    let l := Listing.ofList loopInstructions
    calc StackDepth.ofInstructions label loopInstructions loopBody.handlers
      _ = StackDepth.search label l #[0, 0, 0] [(0, 0)] 0 := if_neg (by decide)
      _ = StackDepth.search label l #[1, 0, 0] [(1, 1)] 1 :=
        StackDepth.search_enter label hnodup 0 1
      _ = StackDepth.search label l #[1, 2, 0] [(4, 0), (0, 0)] 1 :=
        StackDepth.search_enter label hnodup 1 0
      _ = StackDepth.search label l #[1, 2, 1] [(0, 0)] 1 :=
        StackDepth.search_enter label hnodup 2 0
      _ = StackDepth.search label l #[1, 2, 1] [] 1 := StackDepth.search_pass label hnodup 0
      _ = .ok 1 := by rw [StackDepth.search]
  simp [ClassDecl.limits, htype, hins, hlocals, hdepth]

theorem loop_attains_limit : loopBody.code ≠ [] ∧
    loopClass.limits loopMethod loopBody = .ok (1, 0) ∧
    ∃ instructions, loopClass.instructions loopBody = .ok instructions ∧
      StackDepth.Attained instructions loopBody.handlers 1 := by
  have hcode : loopBody.code ≠ [] := by decide
  obtain ⟨instructions, hins, _, _, hattained⟩ :=
    ClassDecl.limits_stack_exact hcode loopClass_limits
  exact ⟨hcode, loopClass_limits, instructions, hins, hattained⟩

end ClassAtlas
