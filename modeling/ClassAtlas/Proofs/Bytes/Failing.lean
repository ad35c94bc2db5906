import ClassAtlas.Proofs.Bytes.Delimiting

/-!
What readers report. A reader that fails on its own says so under the label of its cursor, with the
position that it had reached; what it hands on from elsewhere can be named beside that. Both survive
when readers are put together, since no reader changes the label.
-/

namespace ClassAtlas.Reader

variable {α β : Type}

/-- A failure with a position, under the label. -/
def Located (label : String) (e : DecodeError) : Prop :=
  ∃ reason position, e = ⟨label, .located reason position⟩

/-- Where the label stands at its cursor, the reader leaves it there, and it fails with a position of
its own or in one of the given other ways. -/
def Reports (label : String) (others : DecodeError → Prop) (r : Reader α) : Prop :=
  ∀ c, c.label = label →
    match r c with
    | .ok _ c' => c'.label = label
    | .error e _ => Located label e ∨ others e

namespace Reports

variable {label : String} {others : DecodeError → Prop} {r : Reader α} {f : α → Reader β}

theorem pure (a : α) : Reports label others (pure a : Reader α) :=
  fun _ hc => hc

theorem fail (reason : Reason) : Reports label others (Reader.fail reason : Reader α) := by
  rintro c rfl
  exact .inl ⟨reason, c.position, rfl⟩

theorem bind (hr : Reports label others r) (hf : ∀ a, Reports label others (f a)) :
    Reports label others (r >>= f) := by
  intro c hc
  have hfirst := hr c hc
  cases hx : r c with
  | error e d =>
    rw [hx] at hfirst
    rw [bind_error hx]
    exact hfirst
  | ok a d =>
    rw [hx] at hfirst
    rw [bind_ok hx]
    exact hf a d hfirst

theorem u8 : Reports label others Reader.u8 := by
  rintro ⟨label, rest, position⟩ rfl
  cases rest with
  | nil => exact .inl ⟨.endOfData 1, position, rfl⟩
  | cons a rest => rfl

theorem u16 : Reports label others Reader.u16 := by
  rintro ⟨label, rest, position⟩ rfl
  match rest with
  | [] | [_] => exact .inl ⟨.endOfData 2, position, rfl⟩
  | _ :: _ :: _ => rfl

theorem u32 : Reports label others Reader.u32 := by
  rintro ⟨label, rest, position⟩ rfl
  match rest with
  | [] | [_] | [_, _] | [_, _, _] => exact .inl ⟨.endOfData 4, position, rfl⟩
  | _ :: _ :: _ :: _ :: _ => rfl

theorem u64 : Reports label others Reader.u64 :=
  u32.bind fun _ => u32.bind fun _ => .pure _

theorem take (n : Nat) : Reports label others (Reader.take n) := by
  rintro c rfl
  simp only [Reader.take]
  by_cases hshort : (c.rest.take n).length < n
  · rw [if_pos hshort]
    exact .inl ⟨.endOfData n, c.position, rfl⟩
  · rw [if_neg hshort]

theorem position : Reports label others Reader.position :=
  fun _ hc => hc

theorem remaining : Reports label others Reader.remaining :=
  fun _ hc => hc

/-- What fails without a position must be one of the other ways. -/
theorem lift {e : Except DecodeError α} (h : ∀ x, e = .error x → others x) :
    Reports label others (Reader.lift e) := by
  intro c hc
  cases e with
  | ok a => exact hc
  | error x => exact .inr (h x rfl)

theorem liftLocated (e : Except DecodeError α) :
    Reports label others (Reader.liftLocated e) := by
  rintro c rfl
  cases e with
  | ok a => rfl
  | error x => exact .inl ⟨.failed x.subject x.reason, c.position, rfl⟩

theorem manyFrom (hr : Reports label others r) (n : Nat) (acc : List α) :
    Reports label others (Reader.manyFrom r n acc) := by
  induction n generalizing acc with
  | zero => exact fun _ hc => hc
  | succ n ih =>
    rw [manyFrom_succ]
    exact hr.bind fun a => ih (a :: acc)

theorem many (hr : Reports label others r) (n : Nat) : Reports label others (Reader.many n r) :=
  hr.manyFrom n []

theorem run_error (hr : Reports label others r) {bytes : Bytes} {e : DecodeError}
    (h : r.run label bytes = .error e) : Located label e ∨ others e := by
  have hfirst := hr (.start label bytes) rfl
  unfold run at h
  cases hx : r (.start label bytes) with
  | ok a d =>
    rw [hx] at h
    cases h
  | error x d =>
    rw [hx] at h hfirst
    cases h
    exact hfirst

end Reports

/-- A reader that is put together from the basic ones fails with a position of its own. -/
theorem Composed.reports {r : Reader α} (h : Composed r) (label : String)
    (others : DecodeError → Prop) : Reports label others r := by
  induction h with
  | pure a => exact .pure a
  | fail reason => exact .fail reason
  | u8 => exact .u8
  | u16 => exact .u16
  | u32 => exact .u32
  | take n => exact .take n
  | position => exact .position
  | liftLocated e => exact .liftLocated e
  | bind _ _ ihr ihf => exact ihr.bind ihf
  | many _ n ih => exact ih.many n

end ClassAtlas.Reader
