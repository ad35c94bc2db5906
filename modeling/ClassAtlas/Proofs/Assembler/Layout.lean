import ClassAtlas.Proofs.Assembler.Meaning
import ClassAtlas.Proofs.Bytes.Numbers
import Mathlib.Data.List.Basic

/-!
How statements are laid out. Each piece stands where the one before it ends, a label comes to stand
for the place of an instruction, and filling in the distances changes every piece on its own.
-/

namespace ClassAtlas

namespace Bytes

theorem overwrite_length {bytes new : Bytes} {place : Nat} (h : place + new.length ≤ bytes.length) :
    (bytes.overwrite place new).length = bytes.length := by
  simp only [overwrite, List.length_append, List.length_take, List.length_drop]
  omega

/-- Bytes around the part that is overwritten stay. -/
theorem overwrite_append {front bytes new back : Bytes} {place : Nat}
    (h : place + new.length ≤ bytes.length) :
    (front ++ bytes ++ back).overwrite (front.length + place) new =
      front ++ bytes.overwrite place new ++ back := by
  have htake : (front ++ bytes ++ back).take (front.length + place) = front ++ bytes.take place := by
    rw [List.append_assoc, List.take_length_add_append, List.take_append_of_le_length (by omega)]
  have hdrop : (front ++ bytes ++ back).drop (front.length + place + new.length) =
      bytes.drop (place + new.length) ++ back := by
    rw [List.append_assoc, Nat.add_assoc, List.drop_length_add_append,
      List.drop_append_of_le_length h]
  rw [overwrite, htake, hdrop]
  simp only [overwrite, List.append_assoc]

theorem overwrite_all {bytes new : Bytes} (h : new.length = bytes.length) :
    bytes.overwrite 0 new = new := by
  rw [overwrite, List.take_zero, List.nil_append, Nat.zero_add, h, List.drop_length, List.append_nil]

end Bytes

namespace Assembler

/-- A statement at its place, with the piece that it lays there. -/
structure Placed where
  statement : Statement
  offset : Nat
  piece : Piece

/-- The statements are laid out from an offset on; what they need goes to a pool that grows. -/
inductive Laid : Pool → Nat → List Statement → List Placed → Pool → Prop
  | nil (p : Pool) (offset : Nat) : Laid p offset [] [] p
  | cons {p p₁ q : Pool} {offset : Nat} {s : Statement} {laid : Piece} {rest : List Statement}
      {placed : List Placed} (hpiece : piece p offset s = (laid, p₁))
      (hrest : Laid p₁ (offset + laid.bytes.length) rest placed q) :
      Laid p offset (s :: rest) (⟨s, offset, laid⟩ :: placed) q

/-- The offsets of the instructions. -/
def starts (placed : List Placed) : List Nat :=
  (placed.filter (·.statement.emits)).map (·.offset)

/-! ### From statements to pieces -/

theorem foldl_push_toList (bytes : Bytes) (code : Array UInt8) :
    (bytes.foldl Array.push code).toList = code.toList ++ bytes := by
  simp

theorem Draft.add_code (d : Draft) (s : Statement) :
    (d.add s).code.toList = d.code.toList ++ (piece d.pool d.code.size s).1.bytes :=
  foldl_push_toList _ _

theorem Draft.add_size (d : Draft) (s : Statement) :
    (d.add s).code.size = d.code.size + (piece d.pool d.code.size s).1.bytes.length := by
  rw [← Array.length_toList, add_code, List.length_append, Array.length_toList]

/-- The pieces of the statements lie one after the other behind what is there already. -/
theorem add_laid (statements : List Statement) (d : Draft) :
    ∃ placed, Laid d.pool d.code.size statements placed (statements.foldl Draft.add d).pool ∧
      (statements.foldl Draft.add d).code.toList =
        d.code.toList ++ placed.flatMap (·.piece.bytes) ∧
      (statements.foldl Draft.add d).fixups.reverse =
        d.fixups.reverse ++ placed.flatMap (·.piece.fixups) := by
  induction statements generalizing d with
  | nil => exact ⟨[], .nil _ _, by simp, by simp⟩
  | cons s rest ih =>
    obtain ⟨placed, hlaid, hcode, hfixups⟩ := ih (d.add s)
    rw [Draft.add_size] at hlaid
    refine ⟨⟨s, d.code.size, (piece d.pool d.code.size s).1⟩ :: placed, .cons rfl hlaid, ?_, ?_⟩
    · rw [List.foldl_cons, hcode, Draft.add_code, List.flatMap_cons, List.append_assoc]
    · have hadd : (d.add s).fixups =
          (piece d.pool d.code.size s).1.fixups.reverse ++ d.fixups := rfl
      rw [List.foldl_cons, hfixups, hadd, List.reverse_append, List.reverse_reverse,
        List.flatMap_cons, List.append_assoc]

theorem piece_bytes_of_not_emits {p : Pool} {offset : Nat} {s : Statement} (h : s.emits = false) :
    (piece p offset s).1.bytes = [] := by
  cases s with
  | bind => rfl
  | handler => rfl
  | _ => cases h

theorem Laid.statements {p q : Pool} {offset : Nat} {ss : List Statement} {placed : List Placed}
    (h : Laid p offset ss placed q) : placed.map (·.statement) = ss := by
  induction h with
  | nil => rfl
  | cons _ _ ih => rw [List.map_cons, ih]

/-! ### Where labels come to stand -/

/-- The first instruction starts where the layout starts. -/
theorem Laid.head_start {p q : Pool} {offset o : Nat} {ss : List Statement} {placed : List Placed}
    (h : Laid p offset ss placed q) (hstart : (starts placed)[0]? = some o) : o = offset := by
  induction h with
  | nil => cases hstart
  | @cons p _ _ offset s laid _ _ hpiece _ ih =>
    cases hs : s.emits with
    | true =>
      simp only [starts, List.filter_cons, hs, if_true, List.map_cons, List.getElem?_cons_zero,
        Option.some_inj] at hstart
      exact hstart.symm
    | false =>
      have hempty : laid.bytes = [] := by
        rw [← @piece_bytes_of_not_emits p offset s hs, hpiece]
      simp only [starts, List.filter_cons, hs] at hstart ih
      rw [ih hstart, hempty]
      rfl

theorem Draft.add_labels (d : Draft) (s : Statement) (label : Nat) :
    (d.add s).labels[label]? = if s.binds label then some d.code.size else d.labels[label]? := by
  simp only [Draft.add]
  cases s with
  | bind bound => exact Std.HashMap.getElem?_insert
  | _ => rfl

theorem labels_unmarked {label : Nat} {ss : List Statement} {d : Draft}
    (h : mark label ss = none) : (ss.foldl Draft.add d).labels[label]? = d.labels[label]? := by
  induction ss generalizing d with
  | nil => rfl
  | cons s rest ih =>
    simp only [mark] at h
    split at h
    · cases h
    · rename_i hrest
      split at h
      · cases h
      · rename_i hs
        rw [List.foldl_cons, ih hrest, Draft.add_labels, if_neg hs]

/-- A label stands for the offset of the instruction that follows its latest place. -/
theorem labels_marked {label n o : Nat} {ss : List Statement} {d : Draft} {placed : List Placed}
    {q : Pool} (hlaid : Laid d.pool d.code.size ss placed q) (hmark : mark label ss = some n)
    (hstart : (starts placed)[n]? = some o) :
    (ss.foldl Draft.add d).labels[label]? = some o := by
  induction ss generalizing d n placed with
  | nil => cases hmark
  | cons s rest ih =>
    have hall := hlaid
    cases hlaid with
    | @cons _ p₁ _ _ _ laid _ placed hpiece hrest =>
      have hpool : (d.add s).pool = p₁ := congrArg Prod.snd hpiece
      have hsize : (d.add s).code.size = d.code.size + laid.bytes.length := by
        rw [Draft.add_size, hpiece]
      rw [← hpool, ← hsize] at hrest
      rw [List.foldl_cons]
      simp only [mark] at hmark
      split at hmark
      · rename_i k hk
        refine ih hrest hk ?_
        cases hs : s.emits with
        | true =>
          rw [hs, if_pos rfl, Option.some_inj] at hmark
          subst hmark
          simpa [starts, hs] using hstart
        | false =>
          rw [hs, if_neg Bool.false_ne_true, Option.some_inj] at hmark
          subst hmark
          simpa [starts, hs] using hstart
      · rename_i hunmarked
        split at hmark
        · rename_i hbinds
          cases hmark
          rw [labels_unmarked hunmarked, Draft.add_labels, if_pos hbinds, hall.head_start hstart]
        · cases hmark

/-! ### Filling in distances -/

namespace Fixup

variable (places : Nat → Nat)

/-- The distance, once every label has its offset. -/
def delta (f : Fixup) : Int :=
  (places f.label : Int) - f.base

/-- The distance can be written in its field. -/
def Fits (f : Fixup) : Prop :=
  if f.wide then -2147483648 ≤ f.delta places ∧ f.delta places ≤ 2147483647
  else -32768 ≤ f.delta places ∧ f.delta places ≤ 32767

/-- The bytes that are written for the distance. -/
def word (f : Fixup) : Bytes :=
  if f.wide then Bytes.ofInt32 (Int32.ofInt (f.delta places))
  else Bytes.ofInt16 (Int16.ofInt (f.delta places))

def width (f : Fixup) : Nat :=
  if f.wide then 4 else 2

theorem width_pos (f : Fixup) : 0 < f.width := by
  unfold width
  split <;> decide

theorem word_length (f : Fixup) : (f.word places).length = f.width := by
  cases hf : f.wide <;> simp [word, width, hf]

end Fixup

/-- The offset of a label that is bound. -/
def address (labels : Std.HashMap Nat Nat) (label : Nat) : Nat :=
  labels[label]?.getD 0

theorem patch_toList {bytes : Bytes} {code : Array UInt8} {place : Nat}
    (h : place + bytes.length ≤ code.size) :
    (patch code place bytes).toList = Bytes.overwrite code.toList place bytes := by
  induction bytes generalizing code place with
  | nil => simp [patch, Bytes.overwrite]
  | cons b bytes ih =>
    simp only [List.length_cons] at h
    have hplace : place < code.toList.length := by
      rw [Array.length_toList]
      omega
    rw [patch, ih (by rw [Array.size_setIfInBounds]; omega), Array.toList_setIfInBounds]
    simp only [Bytes.overwrite, List.length_cons]
    have hset : (List.take place code.toList ++ [code.toList[place]]).set place b =
        List.take place code.toList ++ [b] := by
      have hlength : (List.take place code.toList).length = place := by
        rw [List.length_take]
        omega
      rw [List.set_append_right _ _ (by omega), hlength, Nat.sub_self, List.set_cons_zero]
    rw [List.take_set, List.take_succ_eq_append_getElem hplace, List.drop_set_of_lt (by omega), hset,
      Nat.add_assoc place, Nat.add_comm 1]
    simp

theorem fill_step {labels : Std.HashMap Nat Nat} {code out : Array UInt8} {f : Fixup}
    {rest : List Fixup} (h : fill labels code (f :: rest) = .ok out) :
    (f.wide = false → f.Fits (address labels)) ∧
      fill labels (patch code f.place (f.word (address labels))) rest = .ok out := by
  simp only [fill, resolve] at h
  cases hlabel : labels[f.label]? with
  | none =>
    rw [hlabel] at h
    cases h
  | some offset =>
    have haddress : address labels f.label = offset := by
      rw [address, hlabel]
      rfl
    rw [hlabel] at h
    simp only at h
    cases hwide : f.wide with
    | true =>
      rw [hwide, if_pos rfl] at h
      refine ⟨by simp, ?_⟩
      rw [Fixup.word, hwide, if_pos rfl, Fixup.delta, haddress]
      exact h
    | false =>
      rw [hwide, if_neg Bool.false_ne_true] at h
      split at h
      · rename_i hfits
        have hdelta : f.delta (address labels) = (offset : Int) - f.base := by
          rw [Fixup.delta, haddress]
        refine ⟨fun _ => ?_, ?_⟩
        · rw [Fixup.Fits, hwide, hdelta]
          exact hfits
        · rw [Fixup.word, hwide, if_neg Bool.false_ne_true, hdelta]
          exact h
      · cases h

theorem patch_size (bytes : Bytes) (code : Array UInt8) (place : Nat) :
    (patch code place bytes).size = code.size := by
  induction bytes generalizing code place with
  | nil => rfl
  | cons b bytes ih => rw [patch, ih, Array.size_setIfInBounds]

/-- Replaces the field of a distance. -/
def Fixup.apply (places : Nat → Nat) (start : Nat) (bytes : Bytes) (f : Fixup) : Bytes :=
  bytes.overwrite (f.place - start) (f.word places)

/-- All distances have been filled in, one field after the other; the short ones fit. -/
theorem fill_eq_ok {labels : Std.HashMap Nat Nat} {code out : Array UInt8} {fixups : List Fixup}
    (h : fill labels code fixups = .ok out) :
    (∀ f ∈ fixups, f.wide = false → f.Fits (address labels)) ∧
      ((∀ f ∈ fixups, f.place + f.width ≤ code.size) →
        out.toList = fixups.foldl (Fixup.apply (address labels) 0) code.toList) := by
  induction fixups generalizing code with
  | nil =>
    cases h
    exact ⟨by simp, fun _ => rfl⟩
  | cons f rest ih =>
    obtain ⟨hfits, hrest⟩ := fill_step h
    obtain ⟨hnarrow, hout⟩ := ih hrest
    refine ⟨List.forall_mem_cons.mpr ⟨hfits, hnarrow⟩, fun hinside => ?_⟩
    obtain ⟨hplace, hinside⟩ := List.forall_mem_cons.mp hinside
    rw [hout (by simpa only [patch_size] using hinside), List.foldl_cons,
      patch_toList (by rwa [Fixup.word_length])]
    rfl

theorem wideFixups_cons (place base label : Nat) (labels : List Nat) :
    wideFixups place base (label :: labels) =
      ⟨place, base, label, true⟩ :: wideFixups (place + 4) base labels := by
  simp only [wideFixups, List.zipIdx_cons, List.map_cons, Nat.zero_add, List.zipIdx_succ,
    List.map_map]
  refine congrArg₂ _ rfl (List.map_congr_left fun x _ => ?_)
  simp only [Function.comp_apply, Fixup.mk.injEq, and_true]
  omega

theorem wideFixups_inside {place base : Nat} {labels : List Nat} :
    ∀ f ∈ wideFixups place base labels,
      place ≤ f.place ∧ f.place + f.width ≤ place + 4 * labels.length := by
  induction labels generalizing place with
  | nil => simp [wideFixups]
  | cons label labels ih =>
    rw [wideFixups_cons, List.forall_mem_cons, List.length_cons]
    refine ⟨⟨Nat.le_refl _, ?_⟩, fun f hf => ?_⟩
    · simp only [Fixup.width, if_true]
      omega
    · have := ih f hf
      omega

/-- The fields of a piece lie inside it. -/
theorem piece_fixups_inside {p q : Pool} {offset : Nat} {s : Statement} {laid : Piece}
    (h : piece p offset s = (laid, q)) :
    ∀ f ∈ laid.fixups, offset ≤ f.place ∧ f.place + f.width ≤ offset + laid.bytes.length := by
  obtain rfl : (piece p offset s).1 = laid := congrArg Prod.fst h
  cases s with
  | jump op label => simp [piece, Fixup.width]
  | tableSwitch low default targets =>
    simp only [piece, switchPiece, List.forall_mem_cons, List.length_cons, List.length_append,
      List.length_replicate, List.length_nil, Bytes.ofInt32_length]
    refine ⟨?_, fun f hf => ?_⟩
    · simp only [Fixup.width, if_true]
      omega
    · have := wideFixups_inside f hf
      omega
  | _ => simp [piece, Piece.ofBytes]

variable {places : Nat → Nat}

/-- Fields inside a part of the bytes are filled in there. -/
theorem foldl_apply_inside (start : Nat) (front back : Bytes) {bytes : Bytes} {fixups : List Fixup}
    (h : ∀ f ∈ fixups, start + front.length ≤ f.place ∧
      f.place + f.width ≤ start + front.length + bytes.length) :
    fixups.foldl (Fixup.apply places start) (front ++ bytes ++ back) =
      front ++ fixups.foldl (Fixup.apply places (start + front.length)) bytes ++ back := by
  induction fixups generalizing bytes with
  | nil => rfl
  | cons f rest ih =>
    obtain ⟨hf, hrest⟩ := List.forall_mem_cons.mp h
    have hplace : f.place - start = front.length + (f.place - (start + front.length)) := by omega
    have hwidth : f.place - (start + front.length) + (f.word places).length ≤ bytes.length := by
      rw [Fixup.word_length]
      omega
    have hstep : Fixup.apply places start (front ++ bytes ++ back) f =
        front ++ Fixup.apply places (start + front.length) bytes f ++ back := by
      rw [Fixup.apply, hplace, Bytes.overwrite_append hwidth]
      rfl
    rw [List.foldl_cons, hstep, ih, List.foldl_cons]
    rwa [Fixup.apply, Bytes.overwrite_length hwidth]

/-- The bytes of a piece with its distances filled in. -/
def Placed.bytes (places : Nat → Nat) (x : Placed) : Bytes :=
  x.piece.fixups.foldl (Fixup.apply places x.offset) x.piece.bytes

theorem foldl_apply_length {start : Nat} {bytes : Bytes} {fixups : List Fixup}
    (h : ∀ f ∈ fixups, start ≤ f.place ∧ f.place + f.width ≤ start + bytes.length) :
    (fixups.foldl (Fixup.apply places start) bytes).length = bytes.length := by
  induction fixups generalizing bytes with
  | nil => rfl
  | cons f rest ih =>
    obtain ⟨hf, hrest⟩ := List.forall_mem_cons.mp h
    have hstep : (Fixup.apply places start bytes f).length = bytes.length := by
      apply Bytes.overwrite_length
      rw [Fixup.word_length]
      omega
    rw [List.foldl_cons, ih (by rwa [hstep]), hstep]

theorem piece_bytes_length (places : Nat → Nat) {p q : Pool} {offset : Nat} {s : Statement}
    {laid : Piece} (h : piece p offset s = (laid, q)) :
    (Placed.bytes places ⟨s, offset, laid⟩).length = laid.bytes.length :=
  foldl_apply_length (piece_fixups_inside h)

/-! ### Pieces of instructions take bytes -/

theorem slotBytes_ne_nil (op : Opcode) (n : UInt16) : slotBytes op n ≠ [] := by
  have hlong : (if n ≤ 255 then [op, n.toUInt8] else Opcode.wide :: op :: Bytes.ofUInt16 n) ≠ [] := by
    split <;> simp
  simp only [slotBytes]
  split
  · split
    · simp
    · exact hlong
  · exact hlong

theorem constantBytes_ne_nil (index : UInt16) : constantBytes index ≠ [] := by
  unfold constantBytes
  split <;> simp

theorem intBytes_ne_nil (p : Pool) (value : Int32) : (intBytes p value).1 ≠ [] := by
  simp only [intBytes]
  split
  · simp
  · split
    · simp
    · split
      · simp
      · exact constantBytes_ne_nil _

theorem invokeBytes_ne_nil (p : Pool) (kind : InvokeKind) (owner name descriptor : String) :
    (invokeBytes p kind owner name descriptor).1 ≠ [] := by
  simp only [invokeBytes]
  split <;> simp [dynamicBytes]

theorem piece_bytes_ne_nil {p : Pool} {offset : Nat} {s : Statement} (h : s.emits = true) :
    (piece p offset s).1.bytes ≠ [] := by
  cases s with
  | slot op n => simpa only [piece, Piece.ofBytes] using slotBytes_ne_nil op n
  | increment n delta =>
    simp only [piece, Piece.ofBytes, incrementBytes]
    split <;> simp
  | pushInt value => simpa only [piece, Piece.ofBytes] using intBytes_ne_nil p value
  | pushString text =>
    simpa only [piece, Piece.ofBytes] using constantBytes_ne_nil (p.string text).1
  | invoke kind owner name descriptor =>
    simpa only [piece, Piece.ofBytes] using invokeBytes_ne_nil p kind owner name descriptor
  | bind => cases h
  | handler => cases h
  | _ => simp [piece, Piece.ofBytes, switchPiece, dynamicBytes]

/-- A statement that is no instruction leaves nothing to fill in. -/
theorem piece_of_not_emits {p q : Pool} {offset : Nat} {s : Statement} {laid : Piece}
    (h : piece p offset s = (laid, q)) (hs : s.emits = false) :
    laid.fixups = [] ∧ laid.bytes = [] := by
  have hbytes : laid.bytes = [] := by
    rw [← @piece_bytes_of_not_emits p offset s hs, h]
  refine ⟨List.eq_nil_iff_forall_not_mem.mpr fun f hf => ?_, hbytes⟩
  have hinside := piece_fixups_inside h f hf
  have hwidth := f.width_pos
  rw [hbytes, List.length_nil] at hinside
  omega

theorem placed_bytes_ne_nil (places : Nat → Nat) {p q : Pool} {offset : Nat} {s : Statement}
    {laid : Piece} (h : piece p offset s = (laid, q)) (hs : s.emits = true) :
    Placed.bytes places ⟨s, offset, laid⟩ ≠ [] := by
  have hne := @piece_bytes_ne_nil p offset s hs
  rw [h] at hne
  intro hnil
  have hlength := piece_bytes_length places h
  rw [hnil, List.length_nil] at hlength
  exact hne (List.eq_nil_of_length_eq_zero hlength.symm)

theorem placed_bytes_of_not_emits (places : Nat → Nat) {p q : Pool} {offset : Nat} {s : Statement}
    {laid : Piece} (h : piece p offset s = (laid, q)) (hs : s.emits = false) :
    Placed.bytes places ⟨s, offset, laid⟩ = [] := by
  obtain ⟨hfixups, hbytes⟩ := piece_of_not_emits h hs
  simp only [Placed.bytes, hfixups, hbytes, List.foldl_nil]

/-! ### Filling in by pieces -/

/-- All distances of a layout are filled in by pieces. -/
theorem Laid.foldl_apply {p q : Pool} {offset : Nat} {ss : List Statement} {placed : List Placed}
    (h : Laid p offset ss placed q) {front : Bytes} (hfront : front.length = offset) :
    (placed.flatMap (·.piece.fixups)).foldl (Fixup.apply places 0)
        (front ++ placed.flatMap (·.piece.bytes)) =
      front ++ placed.flatMap (Placed.bytes places) := by
  induction h generalizing front with
  | nil => rfl
  | @cons _ _ _ offset s laid _ placed hpiece _ ih =>
    have hinside := piece_fixups_inside hpiece
    rw [← hfront, ← Nat.zero_add front.length] at hinside
    have hlength : (front ++ Placed.bytes places ⟨s, offset, laid⟩).length =
        offset + laid.bytes.length := by
      rw [List.length_append, hfront, piece_bytes_length places hpiece]
    rw [List.flatMap_cons, List.flatMap_cons, List.flatMap_cons, List.foldl_append,
      ← List.append_assoc, foldl_apply_inside 0 front _ hinside, Nat.zero_add, hfront,
      ← List.append_assoc]
    exact ih hlength

theorem Laid.fixups_inside {p q : Pool} {offset : Nat} {ss : List Statement}
    {placed : List Placed} (h : Laid p offset ss placed q) :
    ∀ f ∈ placed.flatMap (·.piece.fixups),
      f.place + f.width ≤ offset + (placed.flatMap (·.piece.bytes)).length := by
  induction h with
  | nil => simp
  | cons hpiece _ ih =>
    intro f hf
    simp only [List.flatMap_cons, List.length_append]
    rcases List.mem_append.mp (List.flatMap_cons ▸ hf) with hf | hf
    · have := piece_fixups_inside hpiece f hf
      omega
    · have := ih f hf
      omega

/-- The draft of statements. -/
def drafted (pool : Pool) (ss : List Statement) : Draft :=
  ss.foldl Draft.add (Draft.start pool)

/-- The offset that a label has come to stand for in the draft of statements. -/
def place (pool : Pool) (ss : List Statement) : Nat → Nat :=
  address (drafted pool ss).labels

/-- The body of an assembled method consists of the pieces of its statements, with the distances
filled in between the offsets that the labels have come to stand for. -/
theorem assemble_eq_ok {pool q : Pool} {ss : List Statement} {body : MethodBody}
    (h : assemble pool ss = .ok (body, q)) :
    ∃ placed, Laid pool 0 ss placed q ∧
      (drafted pool ss).fixups.reverse = placed.flatMap (·.piece.fixups) ∧
      (∀ f ∈ placed.flatMap (·.piece.fixups), f.wide = false → f.Fits (place pool ss)) ∧
      body.code = placed.flatMap (Placed.bytes (place pool ss)) := by
  obtain ⟨placed, hlaid, hcode, hfixups⟩ := add_laid ss (Draft.start pool)
  simp only [assemble] at h
  simp only [place, drafted]
  generalize ss.foldl Draft.add (Draft.start pool) = d at h hlaid hcode hfixups ⊢
  simp only [Draft.start, List.reverse_nil, List.nil_append] at hlaid hcode hfixups
  cases hfill : fill d.labels d.code d.fixups.reverse with
  | error e =>
    rw [hfill] at h
    cases h
  | ok out =>
    cases hhandlers : handlers d.labels ss with
    | error e =>
      rw [hfill, hhandlers] at h
      cases h
    | ok found =>
      rw [hfill, hhandlers] at h
      cases h
      obtain ⟨hnarrow, hout⟩ := fill_eq_ok hfill
      rw [hfixups] at hnarrow hout
      refine ⟨placed, hlaid, hfixups, hnarrow, ?_⟩
      have hinside := hlaid.fixups_inside
      rw [← hcode, Array.length_toList, List.size_toArray, List.length_nil, Nat.zero_add] at hinside
      rw [hout hinside, hcode]
      exact @Laid.foldl_apply _ _ _ _ _ _ hlaid [] rfl

end Assembler

end ClassAtlas
