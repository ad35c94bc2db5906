import ClassAtlas.Proofs.Assembler.Encoding
import ClassAtlas.Proofs.Assembler.Layout

/-!
What holds of every assembled body, whatever its statements are. The pool only grows, and the ranges
of handlers end with the code at the latest, since no label stands for a place behind it.
-/

namespace ClassAtlas.Assembler

/-! ### The pool -/

theorem piece_grows {p q : Pool} {offset : Nat} {s : Statement} {laid : Piece} (hp : p.Sound)
    (h : piece p offset s = (laid, q)) : p.Grows q fun _ => True := by
  cases s with
  | plain op =>
    cases h
    exact .refl hp fun _ => trivial
  | slot op n =>
    cases h
    exact .refl hp fun _ => trivial
  | increment n delta =>
    cases h
    exact .refl hp fun _ => trivial
  | pushInt value =>
    rcases hint : intBytes p value with ⟨bytes, p₁⟩
    simp only [piece, hint] at h
    cases h
    exact (int_decodes hp hint).imp fun _ _ => trivial
  | pushString text =>
    rcases hindex : p.string text with ⟨index, p₁⟩
    simp only [piece, hindex] at h
    cases h
    exact (Pool.string_spec hp hindex).imp fun _ _ => trivial
  | bind label =>
    cases h
    exact .refl hp fun _ => trivial
  | jump op label =>
    cases h
    exact .refl hp fun _ => trivial
  | tableSwitch low default targets =>
    cases h
    exact .refl hp fun _ => trivial
  | invoke kind owner name descriptor =>
    rcases hcall : invokeBytes p kind owner name descriptor with ⟨bytes, p₁⟩
    simp only [piece, hcall] at h
    cases h
    exact (invoke_decodes hp hcall).imp fun _ _ => trivial
  | invokeDynamic name descriptor =>
    rcases hcall : dynamicBytes p name descriptor with ⟨bytes, p₁⟩
    simp only [piece, hcall] at h
    cases h
    exact (dynamic_decodes hp hcall).imp fun _ _ => trivial
  | field op owner name descriptor =>
    rcases hindex : p.fieldRef owner name descriptor with ⟨index, p₁⟩
    simp only [piece, hindex] at h
    cases h
    exact (Pool.fieldRef_spec hp hindex).imp fun _ _ => trivial
  | type op name =>
    rcases hindex : p.classEntry name with ⟨index, p₁⟩
    simp only [piece, hindex] at h
    cases h
    exact (Pool.classEntry_spec hp hindex).imp fun _ _ => trivial
  | handler start stop handler catchType =>
    cases h
    exact .refl hp fun _ => trivial

theorem Laid.grows {p q : Pool} {offset : Nat} {ss : List Statement} {placed : List Placed}
    (h : Laid p offset ss placed q) (hp : p.Sound) : p.Grows q fun _ => True := by
  induction h with
  | nil p offset => exact .refl hp fun _ => trivial
  | cons hpiece _ ih =>
    have hfirst := piece_grows hp hpiece
    exact (hfirst.trans (ih hfirst.sound)).imp fun _ _ => trivial

/-- Assembling keeps the pool sound and all of its slots. -/
theorem assemble_grows {p q : Pool} {ss : List Statement} {body : MethodBody} (hp : p.Sound)
    (h : assemble p ss = .ok (body, q)) : p.Grows q fun _ => True := by
  obtain ⟨placed, hlaid, _⟩ := assemble_eq_ok h
  exact hlaid.grows hp

/-! ### The exception table -/

/-- No label stands for a place behind the code. -/
def Draft.LabelsInside (d : Draft) : Prop :=
  ∀ label offset : Nat, d.labels[label]? = some offset → offset ≤ d.code.size

theorem Draft.LabelsInside.add {d : Draft} (h : d.LabelsInside) (s : Statement) :
    (d.add s).LabelsInside := by
  intro label offset hlabel
  rw [Draft.add_labels] at hlabel
  rw [Draft.add_size]
  split at hlabel
  · cases hlabel
    exact Nat.le_add_right _ _
  · exact Nat.le_add_right_of_le (h label offset hlabel)

theorem drafted_labelsInside (p : Pool) (ss : List Statement) : (drafted p ss).LabelsInside := by
  have hstart : (Draft.start p).LabelsInside := by
    intro label offset h
    simp [Draft.start] at h
  exact List.foldlRecOn ss Draft.add hstart fun d hd s _ => hd.add s

theorem fill_size {labels : Std.HashMap Nat Nat} {code out : Array UInt8} {fixups : List Fixup}
    (h : fill labels code fixups = .ok out) : out.size = code.size := by
  induction fixups generalizing code with
  | nil =>
    cases h
    rfl
  | cons f rest ih =>
    obtain ⟨_, hrest⟩ := fill_step h
    rw [ih hrest, patch_size]

theorem resolve_eq_ok {labels : Std.HashMap Nat Nat} {label offset : Nat} :
    resolve labels label = .ok offset ↔ labels[label]? = some offset := by
  unfold resolve
  cases labels[label]? with
  | none => simp
  | some found => simp

/-- The range and the entry of a handler are places of labels. -/
theorem handlers_bound {labels : Std.HashMap Nat Nat} {ss : List Statement} {found : List Handler}
    (h : handlers labels ss = .ok found) {x : Handler} (hx : x ∈ found) :
    ∃ start stop handler, labels[start]? = some x.start ∧ labels[stop]? = some x.stop ∧
      labels[handler]? = some x.handler ∧ .handler start stop handler x.catchType ∈ ss := by
  fun_induction handlers labels ss generalizing found with
  | case1 =>
    cases h
    cases hx
  | case2 start stop handler catchType rest ih =>
    cases hstart : resolve labels start with
    | error e =>
      rw [hstart] at h
      cases h
    | ok first =>
      cases hstop : resolve labels stop with
      | error e =>
        rw [hstart, hstop] at h
        cases h
      | ok last =>
        cases hentry : resolve labels handler with
        | error e =>
          rw [hstart, hstop, hentry] at h
          cases h
        | ok entry =>
          cases hrest : handlers labels rest with
          | error e =>
            rw [hstart, hstop, hentry, hrest] at h
            cases h
          | ok others =>
            rw [hstart, hstop, hentry, hrest] at h
            cases h
            rcases List.mem_cons.mp hx with rfl | hx
            · exact ⟨start, stop, handler, resolve_eq_ok.mp hstart, resolve_eq_ok.mp hstop,
                resolve_eq_ok.mp hentry, List.mem_cons_self⟩
            · obtain ⟨a, b, c, ha, hb, hc, hmem⟩ := ih hrest hx
              exact ⟨a, b, c, ha, hb, hc, List.mem_cons_of_mem _ hmem⟩
  | case3 s rest _ ih =>
    obtain ⟨a, b, c, ha, hb, hc, hmem⟩ := ih h hx
    exact ⟨a, b, c, ha, hb, hc, List.mem_cons_of_mem _ hmem⟩

/-- No range of an assembled body reaches behind its code. -/
theorem assemble_handlers {p q : Pool} {ss : List Statement} {body : MethodBody}
    (h : assemble p ss = .ok (body, q)) {x : Handler} (hx : x ∈ body.handlers) :
    x.start ≤ body.code.length ∧ x.stop ≤ body.code.length ∧ x.handler ≤ body.code.length := by
  have hinside := drafted_labelsInside p ss
  simp only [assemble] at h
  unfold drafted at hinside
  generalize ss.foldl Draft.add (Draft.start p) = d at h hinside
  cases hfill : fill d.labels d.code d.fixups.reverse with
  | error e =>
    rw [hfill] at h
    cases h
  | ok out =>
    cases hhandlers : handlers d.labels ss with
    | error e =>
      rw [hfill, hhandlers] at h
      cases h
    | ok found =>
      rw [hfill, hhandlers] at h
      cases h
      obtain ⟨start, stop, handler, hstart, hstop, hentry, _⟩ := handlers_bound hhandlers hx
      rw [Array.length_toList, fill_size hfill]
      exact ⟨hinside _ _ hstart, hinside _ _ hstop, hinside _ _ hentry⟩

end ClassAtlas.Assembler
