import ClassAtlas.Proofs.Bytes.Reading

/-!
Readers that find their own end. Each decides by the bytes that it takes, so more bytes behind them
change nothing, and where some of them are missing it reports just that. What it takes is a form of
what it yields, and a part of it can be put in the place of another one.
-/

namespace ClassAtlas.Reader

variable {α β γ : Type}

/-- The reader came to the end of the data. -/
def MeetsEnd (label : String) (e : DecodeError) : Prop :=
  ∃ wanted position, e = ⟨label, .located (.endOfData wanted) position⟩

/-- What the reader yields is told by the bytes that it takes, whatever stands around them. Where it
fails, it fails with more bytes behind too, unless it came to the end of the data. -/
structure SelfDelimiting (r : Reader α) : Prop where
  reads : Consumes r fun a bytes => Reads r bytes a
  fails : ∀ c e c', r c = .error e c' → MeetsEnd c.label e ∨
    ∀ label rest position, ∃ e' c'', r ⟨label, c.rest ++ rest, position⟩ = .error e' c''

theorem bind_error {r : Reader α} {f : α → Reader β} {c c' : Cursor} {e : DecodeError}
    (h : r c = .error e c') : (r >>= f) c = .error e c' := by
  simp only [bind, EStateM.bind, h]

theorem manyFrom_succ (r : Reader α) (n : Nat) (acc : List α) :
    manyFrom r (n + 1) acc = r >>= fun a => manyFrom r n (a :: acc) := by
  funext c
  simp only [manyFrom, bind, EStateM.bind]
  cases r c <;> rfl

/-- Where the reader reads these bytes, it takes no more and no fewer of them. -/
theorem Reads.rest_eq {r : Reader α} {front back : Bytes} {a b : α} (hfront : Reads r front a)
    (hall : Reads r (front ++ back) b) : back = [] := by
  have hshort := hfront "" (back ++ []) 0
  have hlong := hall "" [] 0
  rw [List.append_assoc, hshort] at hlong
  cases back with
  | nil => rfl
  | cons x back => cases hlong

namespace SelfDelimiting

theorem pure (a : α) : SelfDelimiting (pure a : Reader α) where
  reads := .pure (.pure a)
  fails := by
    intro c e c' h
    cases h

theorem fail (reason : Reason) : SelfDelimiting (Reader.fail reason : Reader α) where
  reads := .fail reason
  fails := by
    intro c e c' h
    right
    intro label rest position
    exact ⟨_, _, rfl⟩

theorem u8 : SelfDelimiting Reader.u8 where
  reads := by
    refine Consumes.u8.imp ?_
    rintro v _ rfl
    exact .u8 v
  fails := by
    intro c e c' h
    obtain ⟨label, rest, position⟩ := c
    cases rest with
    | nil =>
      cases h
      exact .inl ⟨1, position, rfl⟩
    | cons x rest => cases h

theorem u16 : SelfDelimiting Reader.u16 where
  reads := by
    refine Consumes.u16.imp ?_
    rintro v _ rfl
    exact .u16 v
  fails := by
    intro c e c' h
    obtain ⟨label, rest, position⟩ := c
    left
    match rest with
    | [] | [_] =>
      cases h
      exact ⟨2, position, rfl⟩
    | _ :: _ :: _ => cases h

theorem u32 : SelfDelimiting Reader.u32 where
  reads := by
    refine Consumes.u32.imp ?_
    rintro v _ rfl
    exact .u32 v
  fails := by
    intro c e c' h
    obtain ⟨label, rest, position⟩ := c
    left
    match rest with
    | [] | [_] | [_, _] | [_, _, _] =>
      cases h
      exact ⟨4, position, rfl⟩
    | _ :: _ :: _ :: _ :: _ => cases h

theorem take (n : Nat) : SelfDelimiting (Reader.take n) where
  reads := by
    refine (Consumes.take n).imp ?_
    rintro data bytes ⟨hbytes, hlength⟩
    rw [hbytes, ← hlength]
    exact .take data
  fails := by
    intro c e c' h
    left
    simp only [Reader.take] at h
    split at h
    · cases h
      exact ⟨n, c.position, rfl⟩
    · cases h

theorem lift (e : Except DecodeError α) : SelfDelimiting (Reader.lift e) where
  reads := by
    refine (Consumes.lift e).imp ?_
    rintro a _ ⟨rfl, rfl⟩
    intro label rest position
    rfl
  fails := by
    intro c x c' h
    right
    intro label rest position
    cases e with
    | error y => exact ⟨_, _, rfl⟩
    | ok a => cases h

theorem bind {r : Reader α} {f : α → Reader β} (hr : SelfDelimiting r)
    (hf : ∀ a, SelfDelimiting (f a)) : SelfDelimiting (r >>= f) where
  reads := by
    refine hr.reads.bind fun a front hfront => ?_
    exact (hf a).reads.imp fun b back hback => hfront.bind hback
  fails := by
    intro c e c' h
    cases hfirst : r c with
    | error x d =>
      rw [bind_error hfirst] at h
      cases h
      rcases hr.fails c e c' hfirst with hend | hagain
      · exact .inl hend
      · right
        intro label rest position
        obtain ⟨e', d, he⟩ := hagain label rest position
        exact ⟨e', d, bind_error he⟩
    | ok a d =>
      rw [bind_ok hfirst] at h
      obtain ⟨front, ⟨hlabel, hrest, _⟩, hfront⟩ := hr.reads c a d hfirst
      rcases (hf a).fails d e c' h with hend | hagain
      · rw [hlabel] at hend
        exact .inl hend
      · right
        intro label rest position
        obtain ⟨e', d', he⟩ := hagain label rest (position + front.length)
        refine ⟨e', d', ?_⟩
        rw [hrest, List.append_assoc, hfront.bind_eq, he]

theorem map {r : Reader α} (hr : SelfDelimiting r) (f : α → β) :
    SelfDelimiting (do return f (← r)) :=
  hr.bind fun a => .pure (f a)

theorem u64 : SelfDelimiting Reader.u64 :=
  u32.bind fun high => u32.map fun low => high.toUInt64 <<< 32 ||| low.toUInt64

theorem manyFrom {r : Reader α} (hr : SelfDelimiting r) (n : Nat) (acc : List α) :
    SelfDelimiting (Reader.manyFrom r n acc) := by
  induction n generalizing acc with
  | zero => exact .pure acc.reverse
  | succ n ih =>
    rw [manyFrom_succ]
    exact hr.bind fun a => ih (a :: acc)

theorem many {r : Reader α} (hr : SelfDelimiting r) (n : Nat) :
    SelfDelimiting (Reader.many n r) :=
  hr.manyFrom n []

/-- On a part of what it would read the reader comes to the end of the data. -/
theorem meetsEnd {r : Reader α} (hr : SelfDelimiting r) {front back : Bytes} {a : α}
    (hreads : Reads r (front ++ back) a) (hback : back ≠ []) (label : String) (position : Nat) :
    ∃ e c, r ⟨label, front, position⟩ = .error e c ∧ MeetsEnd label e := by
  cases hrun : r ⟨label, front, position⟩ with
  | ok b c =>
    exfalso
    obtain ⟨taken, ⟨_, hrest, _⟩, htaken⟩ := hr.reads _ b c hrun
    have hfront : front = taken ++ c.rest := hrest
    rw [hfront, List.append_assoc] at hreads
    have hnone := htaken.rest_eq hreads
    exact hback (List.append_eq_nil_iff.mp hnone).2
  | error e c =>
    refine ⟨e, c, rfl, ?_⟩
    rcases hr.fails _ e c hrun with hend | hagain
    · exact hend
    · exfalso
      obtain ⟨e', c', he⟩ := hagain label back position
      have hok := hreads label [] position
      rw [List.append_nil] at hok
      rw [hok] at he
      cases he

end SelfDelimiting

/-! ### Forms and places -/

/-- The reader takes exactly the byte strings that are a form of what it yields. -/
structure Parses (r : Reader α) (F : α → Bytes → Prop) : Prop where
  sound : Consumes r F
  complete : ∀ a bytes, F a bytes → Reads r bytes a

/-- Running a parser on data succeeds if the data begins with a form of what it yields. -/
theorem Parses.run_eq_ok_iff {r : Reader α} {F : α → Bytes → Prop} (h : Parses r F)
    {label : String} {data : Bytes} {a : α} :
    r.run label data = .ok a ↔ ∃ content spare, data = content ++ spare ∧ F a content := by
  constructor
  · intro hrun
    simp only [Reader.run] at hrun
    split at hrun
    · rename_i b c hread
      cases hrun
      obtain ⟨content, ⟨_, hrest, _⟩, hcontent⟩ := h.sound _ _ _ hread
      exact ⟨content, c.rest, hrest, hcontent⟩
    · cases hrun
  · rintro ⟨content, spare, rfl, hcontent⟩
    have hread := h.complete a content hcontent label spare 0
    simp only [Reader.run, Cursor.start, hread]

theorem Consumes.of_reads {r : Reader α} {P : α → Bytes → Prop} (h : Consumes r P) {bytes : Bytes}
    {a : α} (hreads : Reads r bytes a) : P a bytes := by
  obtain ⟨taken, ⟨_, hrest, _⟩, htaken⟩ := h _ _ _ (hreads "" [] 0)
  have hsame : bytes = taken := List.append_cancel_right hrest
  rwa [hsame]

/-- Between these bytes the first reader reads what the second one does, and makes this of it. -/
def Frames (r : Reader α) (s : Reader β) (before after : Bytes) (fill : β → α) : Prop :=
  ∀ bytes good b, ReadsIf s bytes good b → ReadsIf r (before ++ (bytes ++ after)) good (fill b)

theorem Frames.trans {r : Reader α} {s : Reader β} {t : Reader γ} {before before' after after' : Bytes}
    {fill : β → α} {fill' : γ → β} (h : Frames r s before after fill)
    (h' : Frames s t before' after' fill') :
    Frames r t (before ++ before') (after' ++ after) (fill ∘ fill') := by
  intro bytes good c hc
  have hframed := h _ good _ (h' bytes good c hc)
  simpa only [List.append_assoc, Function.comp_apply] using hframed

theorem Frames.reads {r : Reader α} {s : Reader β} {before after : Bytes} {fill : β → α}
    (h : Frames r s before after fill) {bytes : Bytes} {b : β} (hs : Reads s bytes b) :
    Reads r (before ++ (bytes ++ after)) (fill b) :=
  (h bytes True b hs.readsIf).1 trivial

/-- One item of a repetition is read on a condition, and all others in any case. -/
theorem ReadsIf.many_around {r : Reader α} {good : Prop} {before after : List Bytes} {piece : Bytes}
    {front back : List α} {a : α} (hfront : List.Forall₂ (Reads r) before front)
    (ha : ReadsIf r piece good a) (hback : List.Forall₂ (Reads r) after back) :
    ReadsIf (Reader.many (front ++ a :: back).length r)
      (before.flatten ++ (piece ++ after.flatten)) good (front ++ a :: back) := by
  let certain (items : List α) : List (Prop × α) := items.map (True, ·)
  have hcertain {pieces : List Bytes} {items : List α} (h : List.Forall₂ (Reads r) pieces items) :
      List.Forall₂ (fun piece z => ReadsIf r piece z.1 z.2) pieces (certain items) := by
    rw [List.forall₂_map_right_iff]
    exact h.imp fun _ _ hread => hread.readsIf
  have hitems : List.Forall₂ (fun piece z => ReadsIf r piece (id z.1) z.2)
      (before ++ piece :: after) (certain front ++ (good, a) :: certain back) :=
    List.rel_append (hcertain hfront) (.cons ha (hcertain hback))
  have hall := ReadsIf.many hitems
  have hgood : (∀ z ∈ certain front ++ (good, a) :: certain back, id z.1) ↔ good := by
    simp only [certain, List.forall_mem_append, List.forall_mem_cons, List.forall_mem_map, id]
    simp
  have hvalues : (certain front ++ (good, a) :: certain back).map Prod.snd = front ++ a :: back := by
    simp [certain, Function.comp_def]
  have hlength : (certain front ++ (good, a) :: certain back).length =
      (front ++ a :: back).length := by
    simp [certain]
  rw [hvalues, hlength, List.flatten_append, List.flatten_cons] at hall
  exact hall.congr hgood

end ClassAtlas.Reader
