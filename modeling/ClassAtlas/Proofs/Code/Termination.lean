import ClassAtlas.Proofs.Code.StackDepth
import Mathlib.Data.List.Perm.Subperm

/-!
The search for the stack depth ends on code whose loops do not deepen the stack. Without loops that
gain, a walk gains no more than on its way past each instruction once, so no instruction is entered
deeper than a limit that depends on the number of instructions alone; and an instruction that is
entered deeper every time is entered only so often. The limit that is built into the search is never
met on such code, so the search does the same without it.
-/

namespace ClassAtlas

/-! ### Loops that do not deepen the stack -/

/-- Control gets from the start to an offset when it leaves the listed instructions, the last one in
front, and adds the weight to the stack on the way. -/
inductive Trail (instructions : List Instruction) (start : Nat) :
    List Instruction → Int → Nat → Prop
  | here : Trail instructions start [] 0 start
  | on {left : List Instruction} {i : Instruction} {weight effect added : Int} {next : Nat}
    (htrail : Trail instructions start left weight i.offset) (hi : i ∈ instructions)
    (heffect : i.stackEffect = .ok effect) (hedge : (next, added) ∈ i.edges effect) :
    Trail instructions start (i :: left) (weight + added) next

/-- No loop adds to the stack. Loops that pass no instruction twice suffice, others are made of
them. -/
def NoGrowth (instructions : List Instruction) : Prop :=
  ∀ start left weight, left.Nodup → Trail instructions start left weight start → weight ≤ 0

/-- Heights that no edge exceeds rule out growth. -/
theorem noGrowth_of_heights {instructions : List Instruction} (height : Nat → Int)
    (h : ∀ i ∈ instructions, ∀ effect ∈ i.stackEffect.toOption, ∀ edge ∈ i.edges effect,
      edge.2 ≤ height edge.1 - height i.offset) : NoGrowth instructions := by
  have hweight {start finish : Nat} {left : List Instruction} {weight : Int}
      (ht : Trail instructions start left weight finish) :
      weight ≤ height finish - height start := by
    induction ht with
    | here => omega
    | on _ hi heffect hedge ih =>
      have hadded := h _ hi _ (by rw [heffect]; rfl) _ hedge
      dsimp only at hadded
      omega
  intro start left weight _ ht
  have hback := hweight ht
  omega

theorem Opcode.stackEffect_le (op : Opcode) : op.stackEffect ≤ 2 := by
  revert op
  have hall : ∀ n : Fin 256, Opcode.stackEffect (UInt8.ofFin n) ≤ 2 := by decide +kernel
  exact fun op => hall op.toFin

theorem FieldType.slots_le (descriptor : String) : FieldType.slots descriptor ≤ 2 := by
  unfold FieldType.slots
  split <;> omega

theorem MethodType.returnSlots_le (type : MethodType) : type.returnSlots ≤ 2 := by
  unfold returnSlots
  split
  · omega
  · exact FieldType.slots_le type.ret

/-- No instruction adds more than two slots. -/
theorem Instruction.stackEffect_le {i : Instruction} {effect : Int}
    (h : i.stackEffect = .ok effect) : effect ≤ 2 := by
  unfold Instruction.stackEffect at h
  split at h
  · rename_i descriptor _
    have hslots := FieldType.slots_le descriptor
    cases h
    split_ifs <;> omega
  · split at h
    · rename_i type _
      have hslots := type.returnSlots_le
      cases h
      split_ifs <;> omega
    · cases h
  · split at h
    · rename_i type _
      have hslots := type.returnSlots_le
      cases h
      omega
    · cases h
  · cases h
    omega
  · cases h
    exact i.opcode.stackEffect_le

namespace Trail

variable {instructions : List Instruction} {start finish : Nat} {left : List Instruction}
  {weight : Int}

theorem subset (h : Trail instructions start left weight finish) : left ⊆ instructions := by
  induction h with
  | here => exact List.nil_subset _
  | on _ hi _ _ ih => exact List.cons_subset.mpr ⟨hi, ih⟩

theorem weight_le (h : Trail instructions start left weight finish) :
    weight ≤ 2 * left.length := by
  induction h with
  | here => simp
  | on _ _ heffect hedge ih =>
    have htwo := Instruction.stackEffect_le heffect
    rw [List.length_cons]
    rcases StackDepth.edges_added hedge with rfl | rfl <;> omega

/-- A trail that leaves an instruction comes to it first. -/
theorem split (h : Trail instructions start left weight finish) {i : Instruction} (hi : i ∈ left) :
    ∃ before after : List Instruction, ∃ weight₁ weight₂ : Int,
      Trail instructions start before weight₁ i.offset ∧
      Trail instructions i.offset (after ++ [i]) weight₂ finish ∧
      left = after ++ i :: before ∧ weight = weight₁ + weight₂ := by
  induction h with
  | here => cases hi
  | @on left j weight effect added next htrail hj heffect hedge ih =>
    by_cases hmem : i ∈ left
    · obtain ⟨before, after, weight₁, weight₂, hfirst, hsecond, rfl, rfl⟩ := ih hmem
      exact ⟨before, j :: after, weight₁, weight₂ + added, hfirst,
        hsecond.on hj heffect hedge, rfl, by omega⟩
    · obtain rfl : i = j := (List.mem_cons.mp hi).resolve_right hmem
      refine ⟨left, [], weight, added, htrail, ?_, rfl, rfl⟩
      have hone : Trail instructions i.offset [i] (0 + added) next := .on .here hj heffect hedge
      rwa [Int.zero_add] at hone

/-- Where no loop gains, another trail gains as much and leaves no instruction twice. -/
theorem exists_nodup (hgrowth : NoGrowth instructions)
    (h : Trail instructions start left weight finish) :
    ∃ left' weight', Trail instructions start left' weight' finish ∧ left'.Nodup ∧
      weight ≤ weight' := by
  induction h with
  | here => exact ⟨[], 0, .here, List.nodup_nil, Int.le_refl _⟩
  | @on left i weight effect added next _ hi heffect hedge ih =>
    obtain ⟨left', weight', htrail, hnodup, hle⟩ := ih
    by_cases hmem : i ∈ left'
    · -- the way from the instruction back to it is cut out
      obtain ⟨before, after, weight₁, weight₂, hfirst, hloop, rfl, rfl⟩ := htrail.split hmem
      rw [List.append_cons] at hnodup
      have hgain := hgrowth _ _ _ hnodup.of_append_left hloop
      rw [← List.append_cons] at hnodup
      exact ⟨i :: before, weight₁ + added, hfirst.on hi heffect hedge,
        hnodup.of_append_right, by omega⟩
    · exact ⟨i :: left', weight' + added, htrail.on hi heffect hedge,
        List.nodup_cons.mpr ⟨hmem, hnodup⟩, by omega⟩

end Trail

/-- A walk is a trail from one of the places where walks start. -/
theorem Walk.trail {instructions : List Instruction} {handlers : List Handler} {offset : Nat}
    {depth : Int} (h : Walk instructions handlers offset depth) :
    ∃ start left weight, Trail instructions start left weight offset ∧ depth ≤ 1 + weight := by
  induction h with
  | start => exact ⟨0, [], 0, .here, by omega⟩
  | @handler x _ => exact ⟨x.handler, [], 0, .here, by omega⟩
  | step hi _ heffect hedge ih =>
    obtain ⟨start, left, weight, htrail, hle⟩ := ih
    exact ⟨start, _, _, htrail.on hi heffect hedge, by omega⟩

/-- Where no loop gains, no walk is deeper than two slots for each instruction and one more. -/
theorem Walk.depth_le {instructions : List Instruction} {handlers : List Handler} {offset : Nat}
    {depth : Int} (hgrowth : NoGrowth instructions)
    (h : Walk instructions handlers offset depth) : depth ≤ 2 * instructions.length + 1 := by
  obtain ⟨start, left, weight, htrail, hdepth⟩ := h.trail
  obtain ⟨left', weight', htrail', hnodup, hweight⟩ := htrail.exists_nodup hgrowth
  have hgain := htrail'.weight_le
  have hlength : left'.length ≤ instructions.length :=
    (hnodup.subperm htrail'.subset).length_le
  omega

namespace StackDepth

/-! ### The search without a limit -/

/-- What a search has found out and what it has left to do. -/
structure Visits where
  known : Array Nat
  pending : List (Nat × Nat)
  deepest : Nat

/-- One round of a search that knows no limit to depths: its result, or what comes next. -/
def round (label : String) (l : Listing) (s : Visits) : Except Error Nat ⊕ Visits :=
  match s.pending with
  | [] => .inl (.ok s.deepest)
  | (offset, entry) :: pending =>
    match l.positions[offset]? with
    | none => .inl (.error (.encode (.noInstruction label offset)))
    | some n =>
      match s.known[n]?, l.items[n]? with
      | some entered, some i =>
        if entered > entry then .inr { s with pending := pending }
        else
          match i.stackEffect with
          | .error e => .inl (.error (.decode e))
          | .ok effect =>
            let after := (entry : Int) + effect
            if after < 0 then .inl (.error (.encode (.underflow label offset)))
            else .inr {
              known := s.known.setIfInBounds n (entry + 1)
              pending := (i.successors entry after.toNat).reverse ++ pending
              deepest := max (max s.deepest entry) after.toNat }
      | _, _ => .inl (.error (.encode (.noInstruction label offset)))

/-- Rounds, repeated, come to a result. -/
inductive Ends (label : String) (l : Listing) : Visits → Except Error Nat → Prop
  | done {s : Visits} {result : Except Error Nat} (h : round label l s = .inl result) :
    Ends label l s result
  | more {s s' : Visits} {result : Except Error Nat} (h : round label l s = .inr s')
    (hrest : Ends label l s' result) : Ends label l s result

/-- A search begins in front, with an empty stack, and at the handlers, with one value. -/
def Visits.start (instructions : List Instruction) (handlers : List Handler) : Visits where
  known := Array.replicate instructions.length 0
  pending := (handlers.map fun h => (h.handler, 1)).reverse ++ [(0, 0)]
  deepest := 0

variable {label : String} {instructions : List Instruction} {handlers : List Handler}
  {known : Array Nat} {pending : List (Nat × Nat)} {deepest : Nat}

/-- If all walks stay within the limit, the search ends without it as it does with it. -/
theorem search_ends (label : String) (hnodup : (instructions.map (·.offset)).Nodup)
    (hlimit : ∀ offset depth, Walk instructions handlers offset depth →
      depth ≤ (Listing.ofList instructions).depthLimit)
    (h : Progress instructions handlers known pending deepest) :
    Ends label (Listing.ofList instructions) ⟨known, pending, deepest⟩
      (search label (Listing.ofList instructions) known pending deepest) := by
  fun_induction search label (Listing.ofList instructions) known pending deepest with
  | case1 known deepest => exact .done rfl
  | case2 known deepest offset entry pending hn =>
    refine .done ?_
    simp only [round, hn]
  | case3 known deepest offset entry pending n hn hsize hk ih =>
    obtain ⟨i, hi, rfl⟩ := (Listing.positions_ofList hnodup offset n).mp hn
    obtain ⟨k, hkn⟩ : ∃ k, known[n] = k + 1 := ⟨known[n] - 1, by omega⟩
    have hentered : Entered instructions known i.offset entry := by
      refine ⟨n, i, k, hi, rfl, ?_, by omega⟩
      rw [Array.getElem?_eq_getElem hsize.1, hkn]
    refine .more ?_ (ih (h.pass hentered))
    simp only [round, hn, Array.getElem?_eq_getElem hsize.1,
      Array.getElem?_eq_getElem hsize.2, if_pos hk]
  | case4 known deepest offset entry pending n hn hsize hk hdeep =>
    have hwalk := hlimit _ _ (h.walked offset entry List.mem_cons_self)
    omega
  | case5 known deepest offset entry pending n hn hsize hk _ i e heffect =>
    refine .done ?_
    simp only [round, hn, Array.getElem?_eq_getElem hsize.1, Array.getElem?_eq_getElem hsize.2,
      if_neg hk]
    rw [heffect]
  | case6 known deepest offset entry pending n hn hsize hk _ i effect heffect after hafter =>
    refine .done ?_
    simp only [round, hn, Array.getElem?_eq_getElem hsize.1, Array.getElem?_eq_getElem hsize.2,
      if_neg hk]
    rw [heffect]
    exact if_pos hafter
  | case7 known deepest offset entry pending n hn hsize hk _ i effect heffect after hafter ih =>
    obtain ⟨j, hj, rfl⟩ := (Listing.positions_ofList hnodup offset n).mp hn
    obtain rfl : i = j := Listing.item_ofList hj hsize.2
    have hnat : (after.toNat : Int) = entry + effect := Int.toNat_of_nonneg (by omega)
    have hset : known.setIfInBounds n (entry + 1) = known.set n (entry + 1) hsize.1 :=
      dif_pos hsize.1
    refine .more ?_ (ih (h.enter hj hsize.1 (by omega) heffect hnat))
    simp only [round, hn, Array.getElem?_eq_getElem hsize.1, Array.getElem?_eq_getElem hsize.2,
      if_neg hk, hset]
    rw [heffect]
    exact if_neg hafter
  | case8 known deepest offset entry pending n hn hsize =>
    refine .done ?_
    simp only [round, hn]
    split
    · rename_i entered i hknown hitem
      have hlt := (Array.getElem?_eq_some_iff.mp hknown).1
      have hlt' := (Array.getElem?_eq_some_iff.mp hitem).1
      exact absurd ⟨hlt, hlt'⟩ hsize
    · rfl

/-- A search without a limit never complains of depth. -/
theorem Ends.ne_growingStack {l : Listing} {s : Visits} {result : Except Error Nat}
    (h : Ends label l s result) (name : String) :
    result ≠ .error (.encode (.growingStack name)) := by
  induction h with
  | done h =>
    rintro rfl
    unfold round at h
    grind
  | more _ _ ih => exact ih

/-- On decoded code whose loops do not deepen the stack, the search ends, whatever the handlers, and
its result is the computed depth; the limit of depths is never met. -/
theorem ofInstructions_ends {label : String} {pool : Pool} {code : Bytes}
    {instructions : List Instruction} (hcode : Code.decode label pool code = .ok instructions)
    (hgrowth : NoGrowth instructions) (handlers : List Handler) (name : String) :
    ∃ result, Ends name (Listing.ofList instructions) (.start instructions handlers) result ∧
      ofInstructions name instructions handlers =
        (if instructions.isEmpty then .ok 0 else result) ∧
      ∀ other, ofInstructions name instructions handlers ≠
        .error (.encode (.growingStack other)) := by
  have hlimit : ∀ offset depth, Walk instructions handlers offset depth →
      depth ≤ (Listing.ofList instructions).depthLimit := fun _ _ hwalk => by
    have hdepth := hwalk.depth_le hgrowth
    have hsize : (Listing.ofList instructions).items.size = instructions.length := rfl
    simp only [Listing.depthLimit, hsize]
    omega
  have hends := search_ends name (Code.decode_tiles hcode).nodup hlimit
    (progress_init instructions handlers)
  refine ⟨_, hends, rfl, fun other => ?_⟩
  unfold ofInstructions
  split
  · nofun
  · exact hends.ne_growingStack other

end StackDepth

/-! ### A loop inside a loop -/

namespace StackDepth.Nested

/-- The inner loop neither adds to the stack nor takes from it, the outer one takes a slot. -/
def code : Bytes := [0x03, 0x99, 0xFF, 0xFF, 0x57, 0xA7, 0xFF, 0xFB]

def instructions : List Instruction :=
  [⟨0, 0x03, 1, false, .none⟩, ⟨1, 0x99, 3, false, .jump 0⟩, ⟨4, 0x57, 1, false, .none⟩,
    ⟨5, 0xA7, 3, false, .jump 0⟩]

def height (offset : Nat) : Int :=
  if offset = 1 then 1 else 0

theorem noGrowth : NoGrowth instructions := by
  exact noGrowth_of_heights height (by decide)

theorem ends_underflow : Code.decode "Nested.run()V" Pool.empty code = .ok instructions ∧
    NoGrowth instructions ∧
    Ends "Nested.run()V" (Listing.ofList instructions) (.start instructions [])
      (.error (.encode (.underflow "Nested.run()V" 4))) := by
  have hcode : Code.decode "Nested.run()V" Pool.empty code = .ok instructions := by decide
  have hnodup : (instructions.map (·.offset)).Nodup := by decide
  let label := "Nested.run()V"
  let l := Listing.ofList instructions
  have hdepth : ofInstructions label instructions [] = .error (.encode (.underflow label 4)) :=
    calc ofInstructions label instructions []
      _ = search label l #[0, 0, 0, 0] [(0, 0)] 0 := if_neg (by decide)
      _ = search label l #[1, 0, 0, 0] [(1, 1)] 1 := search_enter label hnodup 0 1
      _ = search label l #[1, 2, 0, 0] [(4, 0), (0, 0)] 1 := search_enter label hnodup 1 0
      _ = .error (.encode (.underflow label 4)) := search_underflow label hnodup 2 (-1)
  obtain ⟨result, hends, hresult, -⟩ := ofInstructions_ends hcode noGrowth [] label
  rw [hdepth, if_neg (by decide)] at hresult
  exact ⟨hcode, noGrowth, hresult ▸ hends⟩

end StackDepth.Nested

end ClassAtlas
