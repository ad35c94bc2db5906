import ClassAtlas.Proofs.Assembler.Statements
import ClassAtlas.Proofs.Code.Tiling
import ClassAtlas.Proofs.Pool.RoundTrip

/-!
Decoding undoes assembling. Statement by statement the code comes back as instructions that mean what
was asked for, unless a switch reaches further than 32 bits can say.
-/

namespace ClassAtlas

open Reader

theorem Statement.Means.imp {pool : Pool} {R S : Nat → Nat → Prop} {s : Statement} {i : Instruction}
    (h : s.Means pool R i) (himp : ∀ label ∈ s.labels, ∀ t, R label t → S label t) :
    s.Means pool S i := by
  cases s with
  | jump op label =>
    obtain ⟨hopcode, t, hoperand, ht⟩ := h
    exact ⟨hopcode, t, hoperand, himp label List.mem_cons_self t ht⟩
  | tableSwitch low default targets =>
    obtain ⟨hopcode, first, others, hoperand, hfirst, hothers⟩ := h
    obtain ⟨hdefault, htargets⟩ := List.forall_mem_cons.mp himp
    refine ⟨hopcode, first, others, hoperand, hdefault first hfirst, ?_⟩
    clear hoperand himp
    induction hothers with
    | nil => exact .nil
    | cons ht _ ih =>
      obtain ⟨hhead, htail⟩ := List.forall_mem_cons.mp htargets
      exact .cons (hhead _ ht) (ih htail)
  | _ => exact h

namespace Assembler

open Code

variable {places : Nat → Nat} {pool p q : Pool} {length offset : Nat} {ss : List Statement}
  {placed : List Placed}

/-! ### Runs of the decoder -/

/-- One instruction is decoded in front of the others. -/
theorem readFrom_step {steps : Nat} {acc : List Instruction} {label : String} {bytes rest : Bytes}
    (hne : bytes ≠ []) :
    readFrom pool length (steps + 1) acc ⟨label, bytes ++ rest, offset⟩ =
      match readInstruction pool length ⟨label, bytes ++ rest, offset⟩ with
      | .ok i c => readFrom pool length steps (i :: acc) c
      | .error e c => .error e c := by
  obtain ⟨b, more, rfl⟩ := List.exists_cons_of_ne_nil hne
  rfl

theorem readFrom_nil (steps : Nat) (acc : List Instruction) (label : String) :
    readFrom pool length steps acc ⟨label, [], offset⟩ = .ok acc.reverse ⟨label, [], offset⟩ := by
  cases steps <;> rfl

/-- If all distances fit, every statement is decoded as what it means. -/
theorem Laid.decodes (h : Laid p offset ss placed q)
    (hall : ∀ x ∈ placed, x.statement.emits = true → Encodes pool length places x)
    (hfits : ∀ f ∈ placed.flatMap (·.piece.fixups), f.Fits places) :
    ∃ is, List.Forall₂ (Statement.Means pool (Lands places)) (ss.filter Statement.emits) is ∧
      ∀ label steps acc, (placed.flatMap (Placed.bytes places)).length ≤ steps →
        ∃ c, readFrom pool length steps acc
          ⟨label, placed.flatMap (Placed.bytes places), offset⟩ = .ok (acc.reverse ++ is) c := by
  induction h with
  | nil p offset =>
    refine ⟨[], .nil, fun label steps acc _ => ⟨⟨label, [], offset⟩, ?_⟩⟩
    rw [List.append_nil]
    exact readFrom_nil steps acc label
  | @cons _ _ _ offset s laid rest placed hpiece _ ih =>
    obtain ⟨hx, hothers⟩ := List.forall_mem_cons.mp hall
    rw [List.flatMap_cons, List.forall_mem_append] at hfits
    obtain ⟨is, hmeans, hread⟩ := ih hothers hfits.2
    cases hs : s.emits with
    | false =>
      have hbytes := placed_bytes_of_not_emits places hpiece hs
      have hempty := (piece_of_not_emits hpiece hs).2
      rw [List.filter_cons_of_neg (by simp [hs])]
      refine ⟨is, hmeans, fun label steps acc hsteps => ?_⟩
      rw [List.flatMap_cons, hbytes, List.nil_append] at hsteps ⊢
      rw [hempty] at hread
      exact hread label steps acc hsteps
    | true =>
      obtain ⟨i, hi, hi'⟩ := (hx hs).complete hfits.1
      have hne := placed_bytes_ne_nil places hpiece hs
      have hlength := piece_bytes_length places hpiece
      have hpos := List.length_pos_iff.mpr hne
      rw [List.filter_cons_of_pos hs]
      refine ⟨i :: is, .cons hi' hmeans, fun label steps acc hsteps => ?_⟩
      rw [List.flatMap_cons, List.length_append] at hsteps
      obtain ⟨steps, rfl⟩ := Nat.exists_eq_add_of_lt (show 0 < steps by omega)
      rw [Nat.zero_add] at hsteps ⊢
      obtain ⟨c, hc⟩ := hread label steps (i :: acc) (by omega)
      refine ⟨c, ?_⟩
      rw [List.flatMap_cons, readFrom_step hne, hi label, hlength]
      simpa using hc

/-- However the code of a layout is decoded, the instructions start where the statements lie, and
they mean the same only if all distances fit. -/
theorem Laid.decodes_only (h : Laid p offset ss placed q)
    (hall : ∀ x ∈ placed, x.statement.emits = true → Encodes pool length places x)
    {label : String} {steps : Nat} {acc out : List Instruction} {c : Cursor}
    (hsteps : (placed.flatMap (Placed.bytes places)).length ≤ steps)
    (hread : readFrom pool length steps acc
      ⟨label, placed.flatMap (Placed.bytes places), offset⟩ = .ok out c) :
    ∃ is, out = acc.reverse ++ is ∧ is.map (·.offset) = starts placed ∧
      (List.Forall₂ (Statement.Means pool (Lands places)) (ss.filter Statement.emits) is →
        ∀ f ∈ placed.flatMap (·.piece.fixups), f.Fits places) := by
  induction h generalizing steps acc with
  | nil p offset =>
    rw [List.flatMap_nil, readFrom_nil] at hread
    cases hread
    exact ⟨[], (List.append_nil _).symm, rfl, by simp⟩
  | @cons _ _ _ offset s laid rest placed hpiece _ ih =>
    obtain ⟨hx, hothers⟩ := List.forall_mem_cons.mp hall
    cases hs : s.emits with
    | false =>
      have hbytes := placed_bytes_of_not_emits places hpiece hs
      obtain ⟨hfixups, hempty⟩ := piece_of_not_emits hpiece hs
      rw [List.flatMap_cons, hbytes, List.nil_append] at hsteps hread
      rw [hempty, List.length_nil, Nat.add_zero] at ih
      obtain ⟨is, hout, hstarts, hfits⟩ := ih hothers hsteps hread
      refine ⟨is, hout, by simpa [starts, hs] using hstarts, fun hmeans => ?_⟩
      rw [List.filter_cons_of_neg (by simp [hs])] at hmeans
      rw [List.flatMap_cons, hfixups, List.nil_append]
      exact hfits hmeans
    | true =>
      have hne := placed_bytes_ne_nil places hpiece hs
      have hlength := piece_bytes_length places hpiece
      have hpos := List.length_pos_iff.mpr hne
      rw [List.flatMap_cons, List.length_append] at hsteps
      obtain ⟨steps, rfl⟩ := Nat.exists_eq_add_of_lt (show 0 < steps by omega)
      rw [Nat.zero_add] at hsteps hread
      rw [List.flatMap_cons, readFrom_step hne] at hread
      split at hread
      · rename_i i d hi
        obtain ⟨rfl, hsound⟩ := (hx hs).sound _ _ _ _ hi
        have hstart : i.offset = offset := (readInstruction_extent hi).1
        rw [hlength] at hread
        obtain ⟨is, hout, hstarts, hfits⟩ := ih hothers (by omega) hread
        refine ⟨i :: is, by simp [hout], by simpa [starts, hs, hstart] using hstarts, fun hmeans => ?_⟩
        rw [List.filter_cons_of_pos hs] at hmeans
        cases hmeans with
        | cons hfirst hrest =>
          rw [List.flatMap_cons, List.forall_mem_append]
          exact ⟨hsound hfirst, hfits hrest⟩
      · cases hread

/-! ### Where control goes -/

/-- Instructions lie inside the code. -/
theorem Laid.starts_lt (h : Laid p offset ss placed q) (places : Nat → Nat) :
    ∀ o ∈ starts placed, o < offset + (placed.flatMap (Placed.bytes places)).length := by
  induction h with
  | nil => simp [starts]
  | @cons _ _ _ offset s laid rest placed hpiece _ ih =>
    intro o ho
    have hlength := piece_bytes_length places hpiece
    rw [List.flatMap_cons, List.length_append, hlength, ← Nat.add_assoc]
    cases hs : s.emits with
    | false =>
      simp only [starts, List.filter_cons, hs] at ho
      exact ih o ho
    | true =>
      simp only [starts, List.filter_cons, hs, if_true, List.map_cons, List.mem_cons] at ho
      obtain rfl | ho := ho
      · have hpos := List.length_pos_iff.mpr (placed_bytes_ne_nil places hpiece hs)
        omega
      · exact ih o ho

theorem Laid.starts_length (h : Laid p offset ss placed q) :
    (starts placed).length = (ss.filter Statement.emits).length := by
  rw [← h.statements, starts, List.length_map, List.filter_map, List.length_map]
  rfl

/-- Distances start at the statement that they belong to and lead to one of its labels. -/
theorem piece_fixups_lead {s : Statement} {laid : Piece} (h : piece p offset s = (laid, q)) :
    ∀ f ∈ laid.fixups, f.base = offset ∧ f.label ∈ s.labels := by
  obtain rfl : (piece p offset s).1 = laid := congrArg Prod.fst h
  cases s with
  | jump op label => simp [piece, Statement.labels]
  | tableSwitch low default targets =>
    have hwide : ∀ f ∈ wideFixups (offset + 1 + (4 - (offset + 1) % 4) % 4 + 12) offset targets,
        f.base = offset ∧ f.label ∈ targets := by
      intro f hf
      obtain ⟨⟨label, i⟩, hlabel, rfl⟩ := List.mem_map.mp hf
      exact ⟨rfl, (List.mem_zipIdx' hlabel).2 ▸ List.getElem_mem _⟩
    simp only [piece, switchPiece, Statement.labels, List.forall_mem_cons]
    exact ⟨⟨trivial, List.mem_cons_self⟩, fun f hf =>
      ⟨(hwide f hf).1, List.mem_cons_of_mem _ (hwide f hf).2⟩⟩
  | _ => simp [piece, Piece.ofBytes]

theorem Laid.fixups_lead (h : Laid p offset ss placed q) (places : Nat → Nat) :
    ∀ f ∈ placed.flatMap (·.piece.fixups),
      f.base < offset + (placed.flatMap (Placed.bytes places)).length ∧
        ∃ s ∈ ss, f.label ∈ s.labels := by
  induction h with
  | nil => simp
  | @cons _ _ _ offset s laid rest placed hpiece _ ih =>
    intro f hf
    simp only [List.flatMap_cons, List.length_append]
    rcases List.mem_append.mp (List.flatMap_cons ▸ hf) with hf | hf
    · obtain ⟨hbase, hlabel⟩ := piece_fixups_lead hpiece f hf
      have hinside := piece_fixups_inside hpiece f hf
      have hlength := piece_bytes_length places hpiece
      have hwidth := f.width_pos
      refine ⟨?_, s, List.mem_cons_self, hlabel⟩
      omega
    · have hlength := piece_bytes_length places hpiece
      obtain ⟨hbase, s', hs', hlabel⟩ := ih f hf
      refine ⟨?_, s', List.mem_cons_of_mem _ hs', hlabel⟩
      omega

/-- The label stands in front of the instruction at the offset. -/
def Leads (ss : List Statement) (instructions : List Instruction) (label target : Nat) : Prop :=
  ∃ n, mark label ss = some n ∧ (instructions.map (·.offset))[n]? = some target

/-- Every label that control may go to is bound, at last in front of an instruction. -/
def LabelsBound (ss : List Statement) : Prop :=
  ∀ s ∈ ss, ∀ label ∈ s.labels,
    ∃ n, mark label ss = some n ∧ n < (ss.filter Statement.emits).length

/-- The distances of switches fit 32 bits. -/
def Draft.SwitchesFit (d : Draft) : Prop :=
  ∀ f ∈ d.fixups, f.wide = true → f.Fits (address d.labels)

/-- A marked label stands for the place of the instruction behind its mark. -/
theorem address_marked (hlaid : Laid pool 0 ss placed q) {label n o : Nat}
    (hmark : mark label ss = some n) (hstart : (starts placed)[n]? = some o) :
    place pool ss label = o := by
  have hlabel := @labels_marked label n o ss (Draft.start pool) placed q hlaid hmark hstart
  rw [place, address, drafted, hlabel, Option.getD_some]

theorem LabelsBound.marked (hbound : LabelsBound ss) (hlaid : Laid pool 0 ss placed q)
    {s : Statement} (hs : s ∈ ss) {label : Nat} (hlabel : label ∈ s.labels) :
    ∃ n, mark label ss = some n ∧ (starts placed)[n]? = some (place pool ss label) := by
  obtain ⟨n, hmark, hn⟩ := hbound s hs label hlabel
  rw [← hlaid.starts_length] at hn
  have hstart := List.getElem?_eq_getElem hn
  exact ⟨n, hmark, hstart.trans (congrArg some (address_marked hlaid hmark hstart).symm)⟩

/-- Control stays inside the code. -/
theorem LabelsBound.inside (hbound : LabelsBound ss) (hlaid : Laid pool 0 ss placed q)
    (places : Nat → Nat) :
    ∀ s ∈ ss, ∀ label ∈ s.labels,
      place pool ss label < (placed.flatMap (Placed.bytes places)).length := by
  intro s hs label hlabel
  obtain ⟨n, _, hstart⟩ := hbound.marked hlaid hs hlabel
  have hlt := hlaid.starts_lt places _ (List.mem_of_getElem? hstart)
  rwa [Nat.zero_add] at hlt

/-- Meaning the same does not depend on whether labels are looked up in the layout or counted off
among the instructions. -/
theorem means_iff (hbound : LabelsBound ss) (hlaid : Laid pool 0 ss placed q) {r : Pool}
    {is : List Instruction} (hstarts : is.map (·.offset) = starts placed) :
    List.Forall₂ (Statement.Means r (Leads ss is)) (ss.filter Statement.emits) is ↔
      List.Forall₂ (Statement.Means r (Lands (place pool ss))) (ss.filter Statement.emits) is := by
  constructor
  · refine List.Forall₂.imp fun s i hi => hi.imp ?_
    rintro label _ t ⟨n, hmark, hstart⟩
    rw [hstarts] at hstart
    exact (address_marked hlaid hmark hstart).symm
  · intro h
    have hmem : ∀ s ∈ ss.filter Statement.emits, s ∈ ss := fun s hs => (List.mem_filter.mp hs).1
    refine ((List.forall₂_and_left _ _).mpr ⟨hmem, h⟩).imp fun s i hi => hi.2.imp ?_
    rintro label hlabel t rfl
    obtain ⟨n, hmark, hstart⟩ := hbound.marked hlaid hi.1 hlabel
    exact ⟨n, hmark, by rw [hstarts, hstart]⟩

/-- Code that is not too long has no distance that does not fit. -/
theorem LabelsBound.switchesFit (hbound : LabelsBound ss) (hlaid : Laid pool 0 ss placed q)
    (hfixups : (drafted pool ss).fixups.reverse = placed.flatMap (·.piece.fixups))
    (hlength : (placed.flatMap (Placed.bytes places)).length ≤ 2147483648) :
    (drafted pool ss).SwitchesFit := by
  intro f hf hwide
  rw [← List.mem_reverse, hfixups] at hf
  obtain ⟨hbase, s, hs, hlabel⟩ := hlaid.fixups_lead places f hf
  have hinside := hbound.inside hlaid places s hs f.label hlabel
  rw [place] at hinside
  rw [Fixup.Fits, if_pos hwide, Fixup.delta]
  omega

theorem decode_eq_ok {label : String} {code : Bytes} {is : List Instruction} :
    decode label pool code = .ok is ↔
      ∃ c, readFrom pool code.length code.length [] ⟨label, code, 0⟩ = .ok is c := by
  unfold decode Reader.run Cursor.start
  split
  · rename_i is' c hread
    rw [hread]
    simp
  · rename_i e c hread
    rw [hread]
    simp

/-- What has been assembled is decoded as instructions that mean what was asked for, one by one, if
and only if the distances of the switches fit. -/
theorem decodes_iff_switchesFit {body : MethodBody} (hpool : pool.Reachable)
    (hvalid : ∀ s ∈ ss, s.Valid) (hbound : LabelsBound ss) (h : assemble pool ss = .ok (body, q))
    (hcount : q.slotCount < 65536) (label : String) :
    (∃ instructions, decode label q body.code = .ok instructions ∧
      List.Forall₂ (Statement.Means q (Leads ss instructions)) (ss.filter Statement.emits)
        instructions) ↔ (drafted pool ss).SwitchesFit := by
  obtain ⟨placed, hlaid, hfixups, hnarrow, hcode⟩ := assemble_eq_ok h
  have hfit : (drafted pool ss).SwitchesFit ↔
      ∀ f ∈ placed.flatMap (·.piece.fixups), f.Fits (place pool ss) := by
    simp only [Draft.SwitchesFit, ← hfixups, List.mem_reverse] at hnarrow ⊢
    refine forall₂_congr fun f hf => ⟨fun hwide => ?_, fun hall _ => hall⟩
    cases hw : f.wide with
    | true => exact hwide hw
    | false => exact hnarrow f hf hw
  have hencodes := (hlaid.encodes hpool.sound hvalid).lasting q (.refl q) hcount _ _
    (hbound.inside hlaid (place pool ss)) hnarrow
  rw [hcode, hfit]
  constructor
  · rintro ⟨is, hdecode, hmeans⟩
    obtain ⟨c, hread⟩ := decode_eq_ok.mp hdecode
    obtain ⟨_, rfl, hstarts, hfits⟩ := hlaid.decodes_only hencodes (Nat.le_refl _) hread
    exact hfits ((means_iff hbound hlaid hstarts).mp hmeans)
  · intro hfits
    obtain ⟨is, hmeans, hread⟩ := hlaid.decodes hencodes hfits
    obtain ⟨c, hc⟩ := hread label _ [] (Nat.le_refl _)
    obtain ⟨found, hfound, hstarts, _⟩ := hlaid.decodes_only hencodes (Nat.le_refl _) hc
    obtain rfl : is = found := hfound
    exact ⟨is, decode_eq_ok.mpr ⟨c, hc⟩, (means_iff hbound hlaid hstarts).mpr hmeans⟩

/-- If every label that control may go to is bound at last in front of an instruction and the
distances of the switches fit, then what has been assembled is decoded as instructions that mean what
was asked for, one by one. In code of at most two gibibytes the distances always fit. -/
theorem decode_assemble {body : MethodBody} (hpool : pool.Reachable) (hvalid : ∀ s ∈ ss, s.Valid)
    (hbound : LabelsBound ss) (h : assemble pool ss = .ok (body, q)) (hcount : q.slotCount < 65536)
    (label : String) :
    ((drafted pool ss).SwitchesFit →
      ∃ instructions, decode label q body.code = .ok instructions ∧
        List.Forall₂ (Statement.Means q (Leads ss instructions)) (ss.filter Statement.emits)
          instructions) ∧
    (body.code.length ≤ 2147483648 → (drafted pool ss).SwitchesFit) := by
  refine ⟨(decodes_iff_switchesFit hpool hvalid hbound h hcount label).mpr, fun hlength => ?_⟩
  obtain ⟨placed, hlaid, hfixups, _, hcode⟩ := assemble_eq_ok h
  rw [hcode] at hlength
  exact hbound.switchesFit hlaid hfixups hlength

/-- Pushes a string and counts down, leaving through a jump or a switch. -/
def countdown : List Statement :=
  [.pushString "go", .slot Opcode.astore 1, .pushInt 3, .slot Opcode.istore 2, .bind 0,
    .increment 2 (-1), .slot Opcode.iload 2, .jump 0x99 1, .slot Opcode.iload 2,
    .tableSwitch 0 0 [1], .bind 1, .plain Opcode.returnVoid]

def countdownCode : Bytes :=
  [0x12, 2, 0x4C, 0x06, 0x3D, 0x84, 2, 0xFF, 0x1C, 0x99, 0, 23, 0x1C, 0xAA, 0, 0,
    0xFF, 0xFF, 0xFF, 0xF8, 0, 0, 0, 0, 0, 0, 0, 0, 0, 0, 0, 19, 0xB1]

def countdownPool : Pool :=
  (Pool.empty.push (.utf8 "go")).push (.string 1)

def countdownLabels : Std.HashMap Nat Nat :=
  ((∅ : Std.HashMap Nat Nat).insert 0 5).insert 1 32

def countdownDraft : Array UInt8 :=
  #[0x12, 2, 0x4C, 0x06, 0x3D, 0x84, 2, 0xFF, 0x1C, 0x99, 0, 0, 0x1C, 0xAA, 0, 0,
    0, 0, 0, 0, 0, 0, 0, 0, 0, 0, 0, 0, 0, 0, 0, 0, 0xB1]

theorem drafted_countdown : drafted .empty countdown =
    ⟨countdownPool, countdownDraft,
      [⟨28, 13, 1, true⟩, ⟨16, 13, 0, true⟩, ⟨10, 9, 1, false⟩], countdownLabels⟩ := by
  have hstring : Pool.empty.string "go" = (2, countdownPool) := by
    simp [Pool.string, Pool.utf8, Pool.intern, Pool.empty, Pool.push, countdownPool, Constant.isWide,
      Std.HashMap.mem_insertIfNew]
  have hfirst : (Draft.start .empty).add (.pushString "go") =
      ⟨countdownPool, #[0x12, 2], [], ∅⟩ := by
    simp only [Draft.add, piece, Draft.start, hstring]
    rfl
  rw [drafted, countdown, List.foldl_cons, hfirst]
  rfl

theorem fill_countdown : fill countdownLabels countdownDraft
    [⟨10, 9, 1, false⟩, ⟨16, 13, 0, true⟩, ⟨28, 13, 1, true⟩] = .ok countdownCode.toArray := by
  have hzero : countdownLabels[0]? = some 5 := by
    rw [countdownLabels, Std.HashMap.getElem?_insert, Std.HashMap.getElem?_insert]
    rfl
  have hone : countdownLabels[1]? = some 32 := by
    rw [countdownLabels, Std.HashMap.getElem?_insert]
    rfl
  simp only [fill, resolve, hzero, hone]
  rfl

theorem assemble_countdown :
    assemble .empty countdown = .ok (⟨0, 0, countdownCode, [], []⟩, countdownPool) := by
  have hdraft := drafted_countdown
  rw [drafted] at hdraft
  have hfill := fill_countdown
  simp only [assemble, hdraft, List.reverse_cons, List.reverse_nil, List.nil_append,
    List.cons_append, hfill]
  rfl

theorem countdown_restored :
    Pool.empty.Reachable ∧ (∀ s ∈ countdown, s.Valid) ∧ LabelsBound countdown ∧
    assemble .empty countdown = .ok (⟨0, 0, countdownCode, [], []⟩, countdownPool) ∧
    countdownPool.slotCount < 65536 ∧
    ∃ instructions, decode "countdown" countdownPool countdownCode = .ok instructions ∧
      List.Forall₂ (Statement.Means countdownPool (Leads countdown instructions))
        (countdown.filter Statement.emits) instructions := by
  have hvalid : ∀ s ∈ countdown, s.Valid := by
    simp only [countdown, List.forall_mem_cons]
    exact ⟨trivial, rfl, trivial, rfl, trivial, trivial, rfl, rfl, rfl, ⟨by simp, by decide⟩,
      trivial, .inl rfl, by simp⟩
  have hbound : LabelsBound countdown := by
    have hlabels : ∀ s ∈ countdown, ∀ label ∈ s.labels, label = 0 ∨ label = 1 := by decide
    intro s hs label hlabel
    obtain rfl | rfl := hlabels s hs label hlabel
    · exact ⟨4, by decide, by decide⟩
    · exact ⟨9, by decide, by decide⟩
  have hcount : countdownPool.slotCount < 65536 := by decide
  obtain ⟨hdecodes, hfits⟩ :=
    decode_assemble .empty hvalid hbound assemble_countdown hcount "countdown"
  exact ⟨.empty, hvalid, hbound, assemble_countdown, hcount, hdecodes (hfits (by decide))⟩

/-! ### Code that is not read back

A label counts where it is bound last. One that is bound in front of an instruction and again at the
end of the code leads out of it, and a switch says less than the distance to a label that is too far
away. Both are assembled all the same. -/

/-- Every label that control may go to is bound in front of an instruction, be it at last or not. -/
def LabelsPlaced (ss : List Statement) : Prop :=
  ∀ s ∈ ss, ∀ label ∈ s.labels,
    ∃ front back, ss = front ++ .bind label :: back ∧ ∃ s ∈ back, s.emits = true

theorem placed_of_mark {label n : Nat} (hmark : mark label ss = some n)
    (hn : n < (ss.filter Statement.emits).length) :
    ∃ front back, ss = front ++ .bind label :: back ∧ ∃ s ∈ back, s.emits = true := by
  induction ss generalizing n with
  | nil => cases hmark
  | cons s rest ih =>
    rw [mark] at hmark
    split at hmark
    · rename_i k hk
      have hlt : k < (rest.filter Statement.emits).length := by
        cases hs : s.emits with
        | true =>
          rw [hs, if_pos rfl, Option.some_inj] at hmark
          rw [List.filter_cons_of_pos hs, List.length_cons] at hn
          omega
        | false =>
          rw [hs, if_neg Bool.false_ne_true, Option.some_inj] at hmark
          rw [List.filter_cons_of_neg (by simp [hs])] at hn
          omega
      obtain ⟨front, back, hrest, hback⟩ := ih hk hlt
      exact ⟨s :: front, back, by rw [hrest, List.cons_append], hback⟩
    · split at hmark
      · rename_i hbinds
        cases hmark
        cases s with
        | bind bound =>
          obtain rfl : bound = label := by simpa [Statement.binds] using hbinds
          rw [List.filter_cons_of_neg (by simp [Statement.emits])] at hn
          obtain ⟨s, hs⟩ := List.exists_mem_of_length_pos hn
          exact ⟨[], rest, rfl, s, List.mem_filter.mp hs⟩
        | _ => cases hbinds
      · cases hmark

theorem LabelsBound.labelsPlaced (hbound : LabelsBound ss) : LabelsPlaced ss := by
  intro s hs label hlabel
  obtain ⟨n, hmark, hn⟩ := hbound s hs label hlabel
  exact placed_of_mark hmark hn

/-- A jump back to the start, to a label that is bound again at the end. -/
def rebound : List Statement :=
  [.bind 0, .plain 0x00, .jump Opcode.goto 0, .bind 0]

/-- A switch over a long way, to the return at the end. -/
def distant (n : Nat) : List Statement :=
  .tableSwitch 0 0 [0] :: (List.replicate n (.plain 0x00) ++ [.bind 0, .plain Opcode.returnVoid])

/-- The statement needs no pool, and its distances are written whether they fit or not. -/
def settled : Statement → Bool
  | .plain _ => true
  | .bind _ => true
  | .tableSwitch .. => true
  | _ => false

theorem wideFixups_wide {start base : Nat} {labels : List Nat} :
    ∀ f ∈ wideFixups start base labels, f.wide = true := by
  intro f hf
  obtain ⟨_, _, rfl⟩ := List.mem_map.mp hf
  rfl

theorem piece_settled {s : Statement} (hs : settled s = true) :
    (piece p offset s).2 = p ∧ ∀ f ∈ (piece p offset s).1.fixups, f.wide = true := by
  cases s with
  | plain op => exact ⟨rfl, by simp [piece, Piece.ofBytes]⟩
  | bind label => exact ⟨rfl, by simp [piece, Piece.ofBytes]⟩
  | tableSwitch low default targets =>
    exact ⟨rfl, List.forall_mem_cons.mpr ⟨rfl, wideFixups_wide⟩⟩
  | _ => cases hs

theorem Laid.settled (h : Laid p offset ss placed q) (hss : ∀ s ∈ ss, settled s = true) :
    q = p ∧ ∀ f ∈ placed.flatMap (·.piece.fixups), f.wide = true := by
  induction h with
  | nil => exact ⟨rfl, by simp⟩
  | @cons p _ _ offset s laid rest placed hpiece _ ih =>
    obtain ⟨hs, hrest⟩ := List.forall_mem_cons.mp hss
    have hsame : (piece p offset s).2 = p ∧ ∀ f ∈ (piece p offset s).1.fixups, f.wide = true :=
      piece_settled hs
    rw [hpiece] at hsame
    obtain ⟨rfl, hwide⟩ := hsame
    obtain ⟨hq, hothers⟩ := ih hrest
    rw [List.flatMap_cons, List.forall_mem_append]
    exact ⟨hq, hwide, hothers⟩

theorem fill_settled {labels : Std.HashMap Nat Nat} {code : Array UInt8} {fixups : List Fixup}
    (h : ∀ f ∈ fixups, f.wide = true ∧ ∃ o, labels[f.label]? = some o) :
    ∃ out, fill labels code fixups = .ok out := by
  induction fixups generalizing code with
  | nil => exact ⟨code, rfl⟩
  | cons f rest ih =>
    obtain ⟨⟨hwide, o, ho⟩, hrest⟩ := List.forall_mem_cons.mp h
    simp only [fill, resolve, ho, hwide, if_true]
    exact ih hrest

theorem handlers_settled {labels : Std.HashMap Nat Nat} (hss : ∀ s ∈ ss, settled s = true) :
    handlers labels ss = .ok [] := by
  induction ss with
  | nil => rfl
  | cons s rest ih =>
    obtain ⟨hs, hrest⟩ := List.forall_mem_cons.mp hss
    cases s with
    | handler => cases hs
    | _ => exact ih hrest

/-- However far its labels are away, such code is assembled. -/
theorem assemble_settled (hss : ∀ s ∈ ss, settled s = true) (hbound : LabelsBound ss) :
    ∃ code, assemble pool ss = .ok (⟨0, 0, code, [], []⟩, pool) := by
  obtain ⟨placed, hlaid, _, hfixups⟩ := add_laid ss (Draft.start pool)
  obtain ⟨hpool, hwide⟩ := hlaid.settled hss
  have hall : ∀ f ∈ (ss.foldl Draft.add (Draft.start pool)).fixups.reverse, f.wide = true ∧
      ∃ o, (ss.foldl Draft.add (Draft.start pool)).labels[f.label]? = some o := by
    intro f hf
    rw [hfixups] at hf
    obtain ⟨_, s, hs, hlabel⟩ := hlaid.fixups_lead id f hf
    obtain ⟨n, hmark, hstart⟩ := hbound.marked hlaid hs hlabel
    exact ⟨hwide f hf, _, labels_marked hlaid hmark hstart⟩
  obtain ⟨out, hfill⟩ := @fill_settled _ (ss.foldl Draft.add (Draft.start pool)).code _ hall
  refine ⟨out.toList, ?_⟩
  simp only [assemble, hfill, handlers_settled hss, hpool]
  rfl

/-- Every instruction takes a byte at least. -/
theorem Laid.le_start (h : Laid p offset ss placed q) {k o : Nat}
    (hstart : (starts placed)[k]? = some o) : offset + k ≤ o := by
  induction h generalizing k with
  | nil => cases hstart
  | @cons p _ _ offset s laid rest placed hpiece _ ih =>
    cases hs : s.emits with
    | false =>
      simp only [starts, List.filter_cons, hs] at hstart
      have := ih hstart
      omega
    | true =>
      have hne : laid.bytes ≠ [] := by
        have hne := @piece_bytes_ne_nil p offset s hs
        rwa [hpiece] at hne
      have hpos := List.length_pos_iff.mpr hne
      simp only [starts, List.filter_cons, hs, if_true, List.map_cons] at hstart
      cases k with
      | zero =>
        cases hstart
        exact Nat.le_refl _
      | succ k =>
        have := ih hstart
        omega

theorem mark_replicate (label n : Nat) (op : Opcode) (rest : List Statement) :
    mark label (List.replicate n (.plain op) ++ rest) = (mark label rest).map (· + n) := by
  induction n with
  | zero => simp
  | succ n ih =>
    rw [List.replicate_succ, List.cons_append, mark, ih]
    cases mark label rest <;> simp [Statement.emits, Statement.binds, Nat.add_assoc]

theorem distant_settled (n : Nat) : ∀ s ∈ distant n, settled s = true := by
  intro s hs
  rcases List.mem_cons.mp hs with rfl | hs
  · rfl
  · rcases List.mem_append.mp hs with hs | hs
    · rw [List.eq_of_mem_replicate hs]
      rfl
    · simp only [List.mem_cons, List.not_mem_nil, or_false] at hs
      rcases hs with rfl | rfl <;> rfl

theorem distant_valid (n : Nat) : ∀ s ∈ distant n, s.Valid := by
  intro s hs
  rcases List.mem_cons.mp hs with rfl | hs
  · exact ⟨by simp, by decide⟩
  · rcases List.mem_append.mp hs with hs | hs
    · rw [List.eq_of_mem_replicate hs]
      exact .inl rfl
    · simp only [List.mem_cons, List.not_mem_nil, or_false] at hs
      rcases hs with rfl | rfl
      · trivial
      · exact .inl rfl

theorem mark_distant (n : Nat) : mark 0 (distant n) = some (n + 1) := by
  rw [distant, mark, mark_replicate]
  simp [mark, Statement.emits, Statement.binds]

theorem emits_distant (n : Nat) : ((distant n).filter Statement.emits).length = n + 2 := by
  have hplain : (List.replicate n (Statement.plain 0x00)).filter Statement.emits =
      List.replicate n (.plain 0x00) :=
    List.filter_eq_self.mpr fun s hs => by rw [List.eq_of_mem_replicate hs]; rfl
  rw [distant, List.filter_cons_of_pos rfl, List.filter_append, hplain, List.length_cons,
    List.length_append, List.length_replicate]
  rfl

theorem distant_bound (n : Nat) : LabelsBound (distant n) := by
  intro s hs label hlabel
  have hzero : label = 0 := by
    rcases List.mem_cons.mp hs with rfl | hs
    · simpa [Statement.labels] using hlabel
    · rcases List.mem_append.mp hs with hs | hs
      · rw [List.eq_of_mem_replicate hs] at hlabel
        cases hlabel
      · simp only [List.mem_cons, List.not_mem_nil, or_false] at hs
        rcases hs with rfl | rfl <;> cases hlabel
  rw [hzero]
  exact ⟨n + 1, mark_distant n, by rw [emits_distant]; omega⟩

/-- A way of two gibibytes is too far for a switch. -/
theorem distant_exceeds {n : Nat} (hn : 2147483648 ≤ n) :
    ¬ (drafted pool (distant n)).SwitchesFit := by
  intro hfits
  obtain ⟨placed, hlaid, _, hfixups⟩ := add_laid (distant n) (Draft.start pool)
  have hstart : (starts placed)[n + 1]? = some (place pool (distant n) 0) := by
    obtain ⟨k, hmark, hstart⟩ :=
      (distant_bound n).marked hlaid List.mem_cons_self (List.mem_cons_self (a := 0))
    rw [mark_distant, Option.some_inj] at hmark
    rwa [hmark]
  have hfar : 0 + (n + 1) ≤ place pool (distant n) 0 := hlaid.le_start hstart
  have hmem : (⟨4, 0, 0, true⟩ : Fixup) ∈ placed.flatMap (·.piece.fixups) := by
    cases hlaid with
    | cons hpiece _ =>
      cases hpiece
      exact List.mem_flatMap.mpr ⟨_, List.mem_cons_self, List.mem_cons_self⟩
  have hfit := hfits ⟨4, 0, 0, true⟩ (by
    rw [← List.mem_reverse, drafted, hfixups]
    exact List.mem_append_right _ hmem) rfl
  have hdelta : Fixup.delta (address (drafted pool (distant n)).labels) ⟨4, 0, 0, true⟩ =
      place pool (distant n) 0 := Int.sub_zero _
  rw [Fixup.Fits, if_pos rfl, hdelta] at hfit
  omega

theorem assemble_rebound :
    assemble .empty rebound = .ok (⟨0, 0, [0x00, 0xA7, 0, 3], [], []⟩, .empty) := by
  have hdraft : drafted .empty rebound = ⟨.empty, #[0x00, 0xA7, 0, 0], [⟨2, 1, 0, false⟩],
      ((∅ : Std.HashMap Nat Nat).insert 0 0).insert 0 4⟩ := rfl
  rw [drafted] at hdraft
  simp only [assemble, hdraft, List.reverse_singleton, fill, resolve, Std.HashMap.getElem?_insert_self]
  rfl

/-- In both cases every label is bound in front of an instruction and the code is assembled, without
an entry of the pool; but the first code is refused, and the second is not decoded as what was asked
for. In the second no label is bound twice. -/
theorem bound_unread :
    ((∀ s ∈ rebound, s.Valid) ∧ LabelsPlaced rebound ∧
      assemble .empty rebound = .ok (⟨0, 0, [0x00, 0xA7, 0, 3], [], []⟩, .empty) ∧
      ∃ e, decode "rebound" .empty [0x00, 0xA7, 0, 3] = .error e) ∧
    ∃ code, (∀ s ∈ distant 2147483648, s.Valid) ∧ LabelsPlaced (distant 2147483648) ∧
      LabelsBound (distant 2147483648) ∧
      assemble .empty (distant 2147483648) = .ok (⟨0, 0, code, [], []⟩, .empty) ∧
      ¬ ∃ instructions, decode "distant" .empty code = .ok instructions ∧
        List.Forall₂ (Statement.Means .empty (Leads (distant 2147483648) instructions))
          ((distant 2147483648).filter Statement.emits) instructions := by
  constructor
  · refine ⟨?_, ?_, assemble_rebound, _, rfl⟩
    · simp only [rebound, List.forall_mem_cons]
      exact ⟨trivial, .inl rfl, rfl, trivial, by simp⟩
    · have hlabels : ∀ s ∈ rebound, ∀ label ∈ s.labels, label = 0 := by decide
      intro s hs label hlabel
      rw [hlabels s hs label hlabel]
      exact ⟨[], _, rfl, .plain 0x00, by simp, rfl⟩
  · have hbound := distant_bound 2147483648
    have hvalid := distant_valid 2147483648
    have hsettled := distant_settled 2147483648
    obtain ⟨code, hcode⟩ : ∃ code, assemble .empty (distant 2147483648) =
        .ok (⟨0, 0, code, [], []⟩, .empty) := assemble_settled hsettled hbound
    refine ⟨code, hvalid, hbound.labelsPlaced, hbound, hcode, ?_⟩
    rw [decodes_iff_switchesFit .empty hvalid hbound hcode (by decide) "distant"]
    exact distant_exceeds (Nat.le_refl _)

end Assembler

end ClassAtlas
