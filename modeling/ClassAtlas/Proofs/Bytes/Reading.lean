import ClassAtlas.Bytes.Reader
import ClassAtlas.Proofs.Bytes.Numbers
import ClassAtlas.Proofs.Steps

/-!
What readers do to their cursor. `Reads` says that a reader takes given bytes from the front whatever
follows them, and yields a given value; `Advances` says that a reader that succeeds, on whatever
input, has moved over a part of it.
-/

namespace ClassAtlas

/-- The second cursor stands further on in the same byte string. -/
def Cursor.LeadsTo (c c' : Cursor) : Prop :=
  c'.label = c.label ∧
    ∃ taken, c.rest = taken ++ c'.rest ∧ c'.position = c.position + taken.length

namespace Cursor

theorem LeadsTo.trans {a b c : Cursor} (hab : a.LeadsTo b) (hbc : b.LeadsTo c) : a.LeadsTo c := by
  obtain ⟨hl, s, hs, hp⟩ := hab
  obtain ⟨hl', t, ht, hp'⟩ := hbc
  refine ⟨hl'.trans hl, s ++ t, ?_, ?_⟩
  · rw [hs, ht, List.append_assoc]
  · rw [hp', hp, List.length_append, Nat.add_assoc]

/-- What has been read and what is left together stay as long as they are. -/
theorem LeadsTo.total {c c' : Cursor} (h : c.LeadsTo c') :
    c'.position + c'.rest.length = c.position + c.rest.length := by
  obtain ⟨_, t, ht, hp⟩ := h
  rw [hp, ht, List.length_append, Nat.add_assoc]

/-- The second cursor stands behind these bytes, at which the first one stands. -/
def Over (c : Cursor) (bytes : Bytes) (c' : Cursor) : Prop :=
  c'.label = c.label ∧ c.rest = bytes ++ c'.rest ∧ c'.position = c.position + bytes.length

theorem Over.refl (c : Cursor) : c.Over [] c :=
  ⟨rfl, rfl, rfl⟩

theorem Over.trans {a b c : Cursor} {front back : Bytes} (hab : a.Over front b)
    (hbc : b.Over back c) : a.Over (front ++ back) c := by
  obtain ⟨hlabel, hrest, hposition⟩ := hab
  obtain ⟨hlabel', hrest', hposition'⟩ := hbc
  refine ⟨hlabel'.trans hlabel, ?_, ?_⟩
  · rw [hrest, hrest', List.append_assoc]
  · rw [hposition', hposition, List.length_append, Nat.add_assoc]

theorem Over.leadsTo {c c' : Cursor} {bytes : Bytes} (h : c.Over bytes c') : c.LeadsTo c' :=
  ⟨h.1, bytes, h.2⟩

/-- The bytes between two cursors are told by their positions. -/
theorem Over.take_eq {c c' : Cursor} {bytes : Bytes} (h : c.Over bytes c') :
    c.rest.take (c'.position - c.position) = bytes := by
  obtain ⟨_, hrest, hposition⟩ := h
  rw [hposition, Nat.add_sub_cancel_left, hrest, List.take_left]

theorem LeadsTo.le {c c' : Cursor} (h : c.LeadsTo c') : c.position ≤ c'.position := by
  obtain ⟨_, t, _, hp⟩ := h
  omega

end Cursor

namespace Reader

variable {α β : Type}

theorem pure_apply (a : α) (c : Cursor) : (pure a : Reader α) c = .ok a c := rfl

theorem bind_ok {r : Reader α} {f : α → Reader β} {c c' : Cursor} {a : α} (h : r c = .ok a c') :
    (r >>= f) c = f a c' := by
  simp only [bind, EStateM.bind, h]

theorem bind_eq_ok {r : Reader α} {f : α → Reader β} {c c' : Cursor} {b : β} :
    (r >>= f) c = .ok b c' ↔ ∃ a d, r c = .ok a d ∧ f a d = .ok b c' := by
  constructor
  · intro h
    cases hr : r c with
    | ok a d =>
      rw [bind_ok hr] at h
      exact ⟨a, d, rfl, h⟩
    | error e d =>
      simp only [bind, EStateM.bind, hr] at h
      cases h
  · rintro ⟨a, d, hr, hf⟩
    rw [bind_ok hr, hf]

/-- What comes out of a reader at a cursor. -/
def outcome (r : Reader α) (c : Cursor) : Except DecodeError α :=
  match r c with
  | .ok a _ => .ok a
  | .error e _ => .error e

theorem run_eq_outcome (r : Reader α) (label : String) (bytes : Bytes) :
    r.run label bytes = r.outcome (.start label bytes) := rfl

/-- The reader takes exactly these bytes from the front, whatever follows, and yields the value. -/
def Reads (r : Reader α) (bytes : Bytes) (a : α) : Prop :=
  ∀ label rest position,
    r ⟨label, bytes ++ rest, position⟩ = .ok a ⟨label, rest, position + bytes.length⟩

namespace Reads

theorem pure (a : α) : Reads (pure a) [] a := by
  intro label rest position
  rfl

theorem bind_eq {r : Reader α} {bytes : Bytes} {a : α} (h : Reads r bytes a) (f : α → Reader β)
    (label : String) (rest : Bytes) (position : Nat) :
    (r >>= f) ⟨label, bytes ++ rest, position⟩ = f a ⟨label, rest, position + bytes.length⟩ :=
  bind_ok (h label rest position)

theorem bind {r : Reader α} {f : α → Reader β} {front back : Bytes} {a : α} {b : β}
    (hr : Reads r front a) (hf : Reads (f a) back b) : Reads (r >>= f) (front ++ back) b := by
  intro label rest position
  rw [List.append_assoc, hr.bind_eq, hf, List.length_append, Nat.add_assoc]

/-- Values are passed on through a function without further reading. -/
theorem map {r : Reader α} {bytes : Bytes} {a : α} (h : Reads r bytes a) (f : α → β) :
    Reads (do return f (← r)) bytes (f a) := by
  intro label rest position
  rw [h.bind_eq, pure_apply]

/-- Running a reader succeeds on data that begins with what it takes. -/
theorem run_append {r : Reader α} {bytes : Bytes} {a : α} (h : Reads r bytes a) (label : String)
    (rest : Bytes) : r.run label (bytes ++ rest) = .ok a := by
  have hread := h label rest 0
  simp only [Reader.run, Cursor.start, hread]

theorem run {r : Reader α} {bytes : Bytes} {a : α} (h : Reads r bytes a) (label : String) :
    r.run label bytes = .ok a := by
  have hrun := h.run_append label []
  rwa [List.append_nil] at hrun

theorem u8 (v : UInt8) : Reads Reader.u8 [v] v := by
  intro label rest position
  rfl

theorem u16 (v : UInt16) : Reads Reader.u16 (Bytes.ofUInt16 v) v := by
  intro label rest position
  simp only [Bytes.ofUInt16, List.cons_append, List.nil_append, Reader.u16, Bytes.toUInt16_bytes,
    List.length_cons, List.length_nil]

theorem u32 (v : UInt32) : Reads Reader.u32 (Bytes.ofUInt32 v) v := by
  intro label rest position
  simp only [Bytes.ofUInt32, List.cons_append, List.nil_append, Reader.u32, Bytes.toUInt32_bytes,
    List.length_cons, List.length_nil]

theorem u64 (v : UInt64) : Reads Reader.u64 (Bytes.ofUInt64 v) v := by
  intro label rest position
  simp only [Reader.u64, Bytes.ofUInt64, List.append_assoc, (u32 _).bind_eq, pure_apply,
    Bytes.uint64_halves, List.length_append, Nat.add_assoc]

theorem take (bytes : Bytes) : Reads (Reader.take bytes.length) bytes bytes := by
  intro label rest position
  simp [Reader.take]

theorem liftLocated {e : Except DecodeError α} {a : α} (h : e = .ok a) :
    Reads (Reader.liftLocated e) [] a := by
  intro label rest position
  subst h
  rfl

/-- What is looked up after reading takes no more bytes. -/
theorem thenLift {r : Reader α} {bytes : Bytes} {a : α} (h : Reads r bytes a)
    {e : α → Except DecodeError β} {b : β} (he : e a = .ok b) :
    Reads (do Reader.lift (e (← r))) bytes b := by
  intro label rest position
  rw [h.bind_eq, he]
  rfl

theorem manyFrom {r : Reader α} {pieces : List Bytes} {items : List α}
    (h : List.Forall₂ (Reads r) pieces items) (acc : List α) :
    Reads (Reader.manyFrom r items.length acc) pieces.flatten (acc.reverse ++ items) := by
  intro label rest position
  induction h generalizing acc position with
  | nil => simp [Reader.manyFrom]
  | @cons piece a pieces items hr _ ih =>
    have := ih (a :: acc) (position + piece.length)
    simp only [List.length_cons, Reader.manyFrom, List.flatten_cons, List.append_assoc,
      hr label _ position, this, List.reverse_cons, List.length_append, List.singleton_append,
      Nat.add_assoc]

/-- A reader that reads each of several pieces reads them one after the other. -/
theorem many {r : Reader α} {pieces : List Bytes} {items : List α}
    (h : List.Forall₂ (Reads r) pieces items) :
    Reads (Reader.many items.length r) pieces.flatten items :=
  manyFrom h []

end Reads

/-- If the reader succeeds at these bytes, it takes exactly them and yields something with the
property. -/
def Takes (r : Reader α) (bytes : Bytes) (P : α → Prop) : Prop :=
  ∀ label rest position a c, r ⟨label, bytes ++ rest, position⟩ = .ok a c →
    P a ∧ c = ⟨label, rest, position + bytes.length⟩

theorem Reads.takes {r : Reader α} {bytes : Bytes} {a : α} (h : Reads r bytes a) :
    Takes r bytes (· = a) := by
  intro label rest position b c hr
  rw [h] at hr
  cases hr
  exact ⟨rfl, rfl⟩

namespace Takes

theorem pure {P : α → Prop} {a : α} (h : P a) : Takes (pure a : Reader α) [] P := by
  intro label rest position b c hr
  cases hr
  exact ⟨h, rfl⟩

theorem fail {P : α → Prop} {bytes : Bytes} (reason : Reason) : Takes (Reader.fail reason) bytes P := by
  intro label rest position a c hr
  cases hr

theorem bind {r : Reader α} {f : α → Reader β} {front back : Bytes} {P : α → Prop} {Q : β → Prop}
    (hr : Takes r front P) (hf : ∀ a, P a → Takes (f a) back Q) :
    Takes (r >>= f) (front ++ back) Q := by
  intro label rest position b c h
  obtain ⟨a, d, ha, hb⟩ := bind_eq_ok.mp h
  rw [List.append_assoc] at ha
  obtain ⟨hP, rfl⟩ := hr _ _ _ _ _ ha
  obtain ⟨hQ, rfl⟩ := hf a hP _ _ _ _ _ hb
  rw [List.length_append, Nat.add_assoc]
  exact ⟨hQ, rfl⟩

theorem manyFrom {γ : Type} {r : Reader α} {R : γ → α → Prop} {pieces : List Bytes} {xs : List γ}
    (h : List.Forall₂ (fun piece x => Takes r piece (R x)) pieces xs) (acc : List α) :
    Takes (Reader.manyFrom r xs.length acc) pieces.flatten
      fun items => ∃ found, items = acc.reverse ++ found ∧ List.Forall₂ R xs found := by
  intro label rest position items c hr
  induction h generalizing acc position with
  | nil =>
    cases hr
    exact ⟨⟨[], by simp, .nil⟩, by simp⟩
  | @cons piece x pieces xs hx _ ih =>
    simp only [List.length_cons, Reader.manyFrom, List.flatten_cons, List.append_assoc] at hr
    split at hr
    · rename_i a d ha
      obtain ⟨hR, rfl⟩ := hx _ _ _ _ _ ha
      obtain ⟨⟨found, rfl, hfound⟩, rfl⟩ := ih (a :: acc) _ hr
      refine ⟨⟨a :: found, by simp, .cons hR hfound⟩, ?_⟩
      rw [List.flatten_cons, List.length_append, Nat.add_assoc]
    · cases hr

theorem many {γ : Type} {r : Reader α} {R : γ → α → Prop} {pieces : List Bytes} {xs : List γ}
    (h : List.Forall₂ (fun piece x => Takes r piece (R x)) pieces xs) :
    Takes (Reader.many xs.length r) pieces.flatten (List.Forall₂ R xs) := by
  intro label rest position items c hr
  obtain ⟨⟨found, hitems, hfound⟩, hc⟩ := manyFrom h [] _ _ _ _ _ hr
  rw [hitems]
  exact ⟨hfound, hc⟩

end Takes

/-- On the condition the outcome is this value; otherwise it is a failure. -/
def SucceedsIf {ε : Type} (e : Except ε α) (good : Prop) (a : α) : Prop :=
  (good → e = .ok a) ∧ ∀ b, e = .ok b → good

theorem SucceedsIf.of_ok {ε : Type} {e : Except ε α} {a : α} {good : Prop} (h : e = .ok a)
    (hgood : good) : SucceedsIf e good a :=
  ⟨fun _ => h, fun _ _ => hgood⟩

/-- On the condition the reader takes exactly these bytes and yields the value; otherwise it fails at
them. -/
def ReadsIf (r : Reader α) (bytes : Bytes) (good : Prop) (a : α) : Prop :=
  (good → Reads r bytes a) ∧ Takes r bytes fun _ => good

theorem Reads.readsIf {r : Reader α} {bytes : Bytes} {a : α} (h : Reads r bytes a) :
    ReadsIf r bytes True a :=
  ⟨fun _ => h, fun _ _ _ _ _ hr => ⟨trivial, (h.takes _ _ _ _ _ hr).2⟩⟩

namespace ReadsIf

variable {good : Prop}

theorem congr {good' : Prop} {r : Reader α} {bytes : Bytes} {a : α} (h : ReadsIf r bytes good a)
    (hgood : good ↔ good') : ReadsIf r bytes good' a := by
  rwa [← propext hgood]

theorem bind {good' : Prop} {r : Reader α} {f : α → Reader β} {front back : Bytes} {a : α} {b : β}
    (hr : ReadsIf r front good a) (hf : ReadsIf (f a) back good' b) :
    ReadsIf (r >>= f) (front ++ back) (good ∧ good') b := by
  refine ⟨fun h => (hr.1 h.1).bind (hf.1 h.2), ?_⟩
  intro label rest position x c h
  obtain ⟨y, d, hy, hx⟩ := bind_eq_ok.mp h
  rw [List.append_assoc] at hy
  obtain ⟨hgood, hd⟩ := hr.2 _ _ _ _ _ hy
  -- what was read is what the reader yields on the condition
  rw [hr.1 hgood] at hy
  cases hy
  obtain ⟨hgood', hc⟩ := hf.2 _ _ _ _ _ hx
  rw [hc, List.length_append, Nat.add_assoc]
  exact ⟨⟨hgood, hgood'⟩, rfl⟩

/-- What is read before the condition matters is read in any case. -/
theorem after {r : Reader α} {f : α → Reader β} {front back : Bytes} {a : α} {b : β}
    (hr : Reads r front a) (hf : ReadsIf (f a) back good b) :
    ReadsIf (r >>= f) (front ++ back) good b :=
  (hr.readsIf.bind hf).congr (iff_of_eq (true_and good))

theorem before {r : Reader α} {f : α → Reader β} {front back : Bytes} {a : α} {b : β}
    (hr : ReadsIf r front good a) (hf : Reads (f a) back b) :
    ReadsIf (r >>= f) (front ++ back) good b :=
  (hr.bind hf.readsIf).congr (iff_of_eq (and_true good))

/-- A value that is refused in one case. -/
theorem refusing (bad : Prop) [Decidable bad] (reason : Reason) (a : α) :
    ReadsIf (if bad then Reader.fail reason else Pure.pure a) [] (¬ bad) a := by
  by_cases h : bad
  · rw [if_pos h]
    exact ⟨fun hgood => absurd h hgood, .fail reason⟩
  · rw [if_neg h]
    exact ⟨fun _ => .pure a, .pure h⟩

theorem lift {e : Except DecodeError α} {a : α} (h : SucceedsIf e good a) :
    ReadsIf (Reader.lift e) [] good a := by
  refine ⟨fun hgood => ?_, ?_⟩
  · rw [h.1 hgood]
    intro label rest position
    rfl
  · intro label rest position b c hr
    cases he : e with
    | error x =>
      rw [he] at hr
      cases hr
    | ok x =>
      rw [he] at hr
      cases hr
      exact ⟨h.2 _ he, rfl⟩

theorem run {r : Reader α} {bytes : Bytes} {a : α} (h : ReadsIf r bytes good a) (label : String) :
    SucceedsIf (r.run label bytes) good a := by
  refine ⟨fun hgood => (h.1 hgood).run label, fun b hb => ?_⟩
  simp only [Reader.run, Cursor.start] at hb
  split at hb
  · rename_i x c hr
    rw [← List.append_nil bytes] at hr
    exact (h.2 _ _ _ _ _ hr).1
  · cases hb

/-- A repetition succeeds if each of its items can be read. -/
theorem many {γ : Type} {r : Reader α} {good : γ → Prop} {pieces : List Bytes} {zs : List (γ × α)}
    (h : List.Forall₂ (fun piece z => ReadsIf r piece (good z.1) z.2) pieces zs) :
    ReadsIf (Reader.many zs.length r) pieces.flatten (∀ z ∈ zs, good z.1) (zs.map Prod.snd) := by
  constructor
  · intro hall
    have hreads : List.Forall₂ (Reads r) pieces (zs.map Prod.snd) := by
      rw [List.forall₂_map_right_iff]
      induction h with
      | nil => exact .nil
      | cons hz _ ih =>
        obtain ⟨hgood, hrest⟩ := List.forall_mem_cons.mp hall
        exact .cons (hz.1 hgood) (ih hrest)
    have hmany := Reads.many hreads
    rwa [List.length_map] at hmany
  · intro label rest position items c hr
    have htakes : List.Forall₂ (fun piece z => Takes r piece fun _ => good z.1) pieces zs :=
      h.imp fun _ _ hz => hz.2
    obtain ⟨hitems, hc⟩ := Takes.many htakes _ _ _ _ _ hr
    refine ⟨fun z hz => ?_, hc⟩
    clear h htakes hr hc
    induction hitems with
    | nil => cases hz
    | cons hgood _ ih =>
      rcases List.mem_cons.mp hz with rfl | hz
      · exact hgood
      · exact ih hz

end ReadsIf

theorem u8_position {c c' : Cursor} {a : UInt8} (h : Reader.u8 c = .ok a c') :
    c'.position = c.position + 1 := by
  obtain ⟨label, rest, position⟩ := c
  cases rest with
  | nil => cases h
  | cons x rest =>
    cases h
    rfl

/-- Whatever the reader yields stands in the relation to the bytes that it has taken for it. -/
def Consumes (r : Reader α) (P : α → Bytes → Prop) : Prop :=
  ∀ c a c', r c = .ok a c' → ∃ bytes, c.Over bytes c' ∧ P a bytes

namespace Consumes

variable {P : α → Bytes → Prop} {Q : β → Bytes → Prop}

theorem pure {a : α} (h : P a []) : Consumes (pure a : Reader α) P := by
  intro c b c' hr
  cases hr
  exact ⟨[], .refl c, h⟩

theorem fail (reason : Reason) : Consumes (Reader.fail reason) P := by
  intro c a c' hr
  cases hr

theorem imp {P' : α → Bytes → Prop} {r : Reader α} (h : Consumes r P)
    (himp : ∀ a bytes, P a bytes → P' a bytes) : Consumes r P' := by
  intro c a c' hr
  obtain ⟨bytes, hover, hP⟩ := h c a c' hr
  exact ⟨bytes, hover, himp a bytes hP⟩

theorem bind {r : Reader α} {f : α → Reader β} (hr : Consumes r P)
    (hf : ∀ a front, P a front → Consumes (f a) fun b back => Q b (front ++ back)) :
    Consumes (r >>= f) Q := by
  intro c b c' h
  obtain ⟨a, d, ha, hb⟩ := bind_eq_ok.mp h
  obtain ⟨front, hfront, hP⟩ := hr c a d ha
  obtain ⟨back, hback, hQ⟩ := hf a front hP d b c' hb
  exact ⟨front ++ back, hfront.trans hback, hQ⟩

theorem map {r : Reader α} {f : α → β} (hr : Consumes r P)
    (h : ∀ a bytes, P a bytes → Q (f a) bytes) : Consumes (do return f (← r)) Q := by
  refine hr.bind fun a front hP => .pure ?_
  rw [List.append_nil]
  exact h a front hP

theorem u8 : Consumes Reader.u8 fun v bytes => bytes = [v] := by
  intro c v c' h
  obtain ⟨label, rest, position⟩ := c
  cases rest with
  | nil => cases h
  | cons x rest =>
    cases h
    exact ⟨[v], ⟨rfl, rfl, rfl⟩, rfl⟩

theorem u16 : Consumes Reader.u16 fun v bytes => bytes = Bytes.ofUInt16 v := by
  intro c v c' h
  obtain ⟨label, rest, position⟩ := c
  match rest with
  | [] => cases h
  | [_] => cases h
  | x :: y :: rest =>
    cases h
    exact ⟨[x, y], ⟨rfl, rfl, rfl⟩, (Bytes.ofUInt16_toUInt16 x y).symm⟩

theorem u32 : Consumes Reader.u32 fun v bytes => bytes = Bytes.ofUInt32 v := by
  intro c v c' h
  obtain ⟨label, rest, position⟩ := c
  match rest with
  | [] => cases h
  | [_] => cases h
  | [_, _] => cases h
  | [_, _, _] => cases h
  | w :: x :: y :: z :: rest =>
    cases h
    exact ⟨[w, x, y, z], ⟨rfl, rfl, rfl⟩, (Bytes.ofUInt32_toUInt32 w x y z).symm⟩

theorem u64 : Consumes Reader.u64 fun v bytes => bytes = Bytes.ofUInt64 v := by
  refine u32.bind fun high _ hhigh => u32.map fun low _ hlow => ?_
  rw [hhigh, hlow, Bytes.ofUInt64_halves]

theorem take (n : Nat) : Consumes (Reader.take n) fun a bytes => bytes = a ∧ a.length = n := by
  intro c a c' h
  simp only [Reader.take] at h
  split at h
  · cases h
  · rename_i hn
    cases h
    have hle := List.length_take_le n c.rest
    have hlength : (c.rest.take n).length = n := by omega
    exact ⟨c.rest.take n, ⟨rfl, (List.take_append_drop n c.rest).symm, by rw [hlength]⟩, rfl, hlength⟩

theorem lift (e : Except DecodeError α) :
    Consumes (Reader.lift e) fun a bytes => bytes = [] ∧ e = .ok a := by
  intro c a c' h
  cases e with
  | error e => cases h
  | ok b =>
    cases h
    exact ⟨[], .refl c, rfl, rfl⟩

theorem liftLocated (e : Except DecodeError α) :
    Consumes (Reader.liftLocated e) fun a bytes => bytes = [] ∧ e = .ok a := by
  intro c a c' h
  cases e with
  | error e => cases h
  | ok b =>
    cases h
    exact ⟨[], .refl c, rfl, rfl⟩

theorem manyFrom {r : Reader α} (hr : Consumes r P) (n : Nat) (acc : List α) :
    Consumes (Reader.manyFrom r n acc) fun found bytes =>
      ∃ items pieces, found = acc.reverse ++ items ∧ items.length = n ∧ bytes = pieces.flatten ∧
        List.Forall₂ P items pieces := by
  induction n generalizing acc with
  | zero =>
    intro c found c' h
    cases h
    exact ⟨[], .refl c, [], [], by simp, rfl, rfl, .nil⟩
  | succ n ih =>
    intro c found c' h
    simp only [Reader.manyFrom] at h
    cases hx : r c with
    | error e d =>
      rw [hx] at h
      cases h
    | ok x d =>
      rw [hx] at h
      obtain ⟨piece, hpiece, hP⟩ := hr _ _ _ hx
      obtain ⟨_, hover, items, pieces, rfl, hlength, rfl, hitems⟩ := ih (x :: acc) _ _ _ h
      exact ⟨_, hpiece.trans hover, x :: items, piece :: pieces, by simp, by simp [hlength], rfl,
        .cons hP hitems⟩

/-- The pieces of a repetition lie one after the other. -/
theorem many {r : Reader α} (hr : Consumes r P) (n : Nat) :
    Consumes (Reader.many n r) fun items bytes =>
      items.length = n ∧ ∃ pieces, bytes = pieces.flatten ∧ List.Forall₂ P items pieces := by
  refine (hr.manyFrom n []).imp ?_
  rintro found bytes ⟨items, pieces, rfl, hlength, hbytes, hitems⟩
  exact ⟨hlength, pieces, hbytes, hitems⟩

end Consumes

/-- The reader only moves forward. -/
def Advances (r : Reader α) : Prop :=
  ∀ c a c', r c = .ok a c' → c.LeadsTo c'

theorem Consumes.advances {P : α → Bytes → Prop} {r : Reader α} (h : Consumes r P) :
    Advances r := by
  intro c a c' hr
  obtain ⟨_, hover, _⟩ := h c a c' hr
  exact hover.leadsTo

theorem Advances.consumes {r : Reader α} (h : Advances r) : Consumes r fun _ _ => True := by
  intro c a c' hr
  obtain ⟨hlabel, bytes, hover⟩ := h c a c' hr
  exact ⟨bytes, ⟨hlabel, hover⟩, trivial⟩

namespace Advances

theorem pure (a : α) : Advances (pure a : Reader α) :=
  (Consumes.pure (P := fun _ _ => True) trivial).advances

theorem fail (reason : Reason) : Advances (Reader.fail reason : Reader α) := by
  intro c b c' h
  cases h

theorem bind {r : Reader α} {f : α → Reader β} (hr : Advances r) (hf : ∀ a, Advances (f a)) :
    Advances (r >>= f) := by
  intro c b c' h
  obtain ⟨a, d, h₁, h₂⟩ := bind_eq_ok.mp h
  exact (hr _ _ _ h₁).trans (hf a _ _ _ h₂)

theorem u8 : Advances Reader.u8 := Consumes.u8.advances

theorem u16 : Advances Reader.u16 := Consumes.u16.advances

theorem u32 : Advances Reader.u32 := Consumes.u32.advances

theorem take (n : Nat) : Advances (Reader.take n) := (Consumes.take n).advances

theorem liftLocated (e : Except DecodeError α) : Advances (Reader.liftLocated e) :=
  (Consumes.liftLocated e).advances

theorem position : Advances Reader.position := by
  intro c a c' h
  cases h
  exact (Cursor.Over.refl c).leadsTo

theorem many {r : Reader α} (hr : Advances r) (n : Nat) : Advances (Reader.many n r) :=
  (hr.consumes.many n).advances

end Advances

/-- Readers that are put together from the basic ones. What is looked up elsewhere fails with the
position of the reader. -/
inductive Composed : {α : Type} → Reader α → Prop
  | pure {α : Type} (a : α) : Composed (pure a : Reader α)
  | fail {α : Type} (reason : Reason) : Composed (Reader.fail reason : Reader α)
  | u8 : Composed Reader.u8
  | u16 : Composed Reader.u16
  | u32 : Composed Reader.u32
  | take (n : Nat) : Composed (Reader.take n)
  | position : Composed Reader.position
  | liftLocated {α : Type} (e : Except DecodeError α) : Composed (Reader.liftLocated e)
  | bind {α β : Type} {r : Reader α} {f : α → Reader β} (hr : Composed r)
    (hf : ∀ a, Composed (f a)) : Composed (r >>= f)
  | many {α : Type} {r : Reader α} (hr : Composed r) (n : Nat) : Composed (Reader.many n r)

theorem Composed.advances {r : Reader α} (h : Composed r) : Advances r := by
  induction h with
  | pure a => exact .pure a
  | fail reason => exact .fail reason
  | u8 => exact .u8
  | u16 => exact .u16
  | u32 => exact .u32
  | take n => exact .take n
  | position => exact .position
  | liftLocated e => exact .liftLocated e
  | bind _ _ ihr ihf => exact ihr.bind ihf
  | many _ n ih => exact ih.many n

/-- Where the first reader succeeds, the second one does too, on the same bytes and with a related
value. -/
def ReadsAlong (r : Reader α) (s : Reader β) (R : α → β → Prop) : Prop :=
  ∀ c a c', r c = .ok a c' → ∃ b, s c = .ok b c' ∧ R a b

theorem ReadsAlong.refl (r : Reader α) : ReadsAlong r r Eq := by
  intro c a c' h
  exact ⟨a, h, rfl⟩

theorem ReadsAlong.bind {γ δ : Type} {r : Reader α} {s : Reader β} {R : α → β → Prop}
    {f : α → Reader γ} {g : β → Reader δ} {S : γ → δ → Prop} (h : ReadsAlong r s R)
    (hf : ∀ a b, R a b → ReadsAlong (f a) (g b) S) : ReadsAlong (r >>= f) (s >>= g) S := by
  intro c x c' hx
  obtain ⟨a, d, ha, hx⟩ := bind_eq_ok.mp hx
  obtain ⟨b, hb, hab⟩ := h c a d ha
  obtain ⟨y, hy, hxy⟩ := hf a b hab d x c' hx
  exact ⟨y, bind_eq_ok.mpr ⟨b, d, hb, hy⟩, hxy⟩

/-- Readers with the same beginning. -/
theorem ReadsAlong.after {r : Reader α} {f g : α → Reader β} {S : β → β → Prop}
    (hf : ∀ a, ReadsAlong (f a) (g a) S) : ReadsAlong (r >>= f) (r >>= g) S := by
  refine (ReadsAlong.refl r).bind fun a b hab => ?_
  cases hab
  exact hf a

/-- Readers that go on in the same way. -/
theorem ReadsAlong.before {r s : Reader α} {f : α → Reader β} (h : ReadsAlong r s Eq) :
    ReadsAlong (r >>= f) (s >>= f) Eq := by
  refine h.bind fun a b hab => ?_
  cases hab
  exact .refl (f a)

theorem ReadsAlong.liftLocated {e e' : Except DecodeError α} (h : ∀ a, e = .ok a → e' = .ok a) :
    ReadsAlong (Reader.liftLocated e) (Reader.liftLocated e') Eq := by
  intro c a c' ha
  cases he : e with
  | error x =>
    rw [he] at ha
    cases ha
  | ok x =>
    rw [he] at ha
    rw [h x he]
    exact ⟨a, ha, rfl⟩

theorem ReadsAlong.manyFrom {r : Reader α} {s : Reader β} {R : α → β → Prop}
    (h : ReadsAlong r s R) (n : Nat) {before : List α} {before' : List β}
    (hbefore : List.Forall₂ R before before') :
    ReadsAlong (Reader.manyFrom r n before) (Reader.manyFrom s n before') (List.Forall₂ R) := by
  induction n generalizing before before' with
  | zero =>
    intro c as c' has
    cases has
    exact ⟨before'.reverse, rfl, List.rel_reverse hbefore⟩
  | succ n ih =>
    intro c as c' has
    simp only [Reader.manyFrom] at has
    cases hr : r c with
    | error e d =>
      rw [hr] at has
      cases has
    | ok a d =>
      rw [hr] at has
      obtain ⟨b, hb, hab⟩ := h c a d hr
      simp only [Reader.manyFrom, hb]
      exact ih (.cons hab hbefore) d as c' has

theorem ReadsAlong.many {r : Reader α} {s : Reader β} {R : α → β → Prop}
    (h : ReadsAlong r s R) (n : Nat) :
    ReadsAlong (Reader.many n r) (Reader.many n s) (List.Forall₂ R) :=
  h.manyFrom n .nil

/-- Whatever the reader yields has the property. -/
def Yields (r : Reader α) (P : α → Prop) : Prop :=
  ∀ c a c', r c = .ok a c' → P a

namespace Yields

theorem pure {P : α → Prop} {a : α} (h : P a) : Yields (pure a : Reader α) P := by
  intro c b c' hr
  cases hr
  exact h

theorem fail {P : α → Prop} (reason : Reason) : Yields (Reader.fail reason) P := by
  intro c b c' hr
  cases hr

theorem after {P : α → Prop} {Q : β → Prop} {r : Reader α} {f : α → Reader β} (hr : Yields r P)
    (hf : ∀ a, P a → Yields (f a) Q) : Yields (r >>= f) Q := by
  intro c b c' h
  obtain ⟨a, d, ha, hb⟩ := bind_eq_ok.mp h
  exact hf a (hr c a d ha) d b c' hb

theorem bind {P : β → Prop} {r : Reader α} {f : α → Reader β} (h : ∀ a, Yields (f a) P) :
    Yields (r >>= f) P :=
  after (fun _ _ _ _ => trivial) fun a (_ : True) => h a

theorem take (n : Nat) : Yields (Reader.take n) fun a => a.length = n := by
  intro c a c' h
  obtain ⟨_, _, _, hlength⟩ := Consumes.take n c a c' h
  exact hlength

/-- What holds of every item holds of all items of a repetition. -/
theorem many {P : α → Prop} {r : Reader α} (h : Yields r P) (n : Nat) :
    Yields (Reader.many n r) fun items => ∀ a ∈ items, P a := by
  have halong : ReadsAlong r r fun a _ => P a := by
    intro c a c' ha
    exact ⟨a, ha, h c a c' ha⟩
  intro c items c' hitems
  obtain ⟨_, _, hall⟩ := halong.many n c items c' hitems
  intro a ha
  obtain ⟨_, _, hP⟩ := mem_of_forall₂ hall.flip ha
  exact hP

end Yields

end Reader

end ClassAtlas
