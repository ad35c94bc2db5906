import ClassAtlas.Proofs.Code.Tiling
import ClassAtlas.Proofs.Pool.Interning

/-!
Code under a pool that has grown. What an entry stands for does not change when others are appended,
so code that can be decoded is decoded to the same instructions by every later pool.
-/

namespace ClassAtlas

namespace Pool

variable {p q : Pool} {i : UInt16}

theorem Extends.get? {c : Constant} (h : p.Extends q) (hc : p.get? i = some c) :
    q.get? i = some c := by
  obtain ⟨hused, hat⟩ := getElem?_of_get? hc
  obtain ⟨more, hmore⟩ := h
  obtain ⟨hlt, _⟩ := List.getElem?_eq_some_iff.mp hat
  have hlater : q.entries[i.toNat]? = some c := by
    rw [← Array.getElem?_toList, ← hmore, List.getElem?_append_left hlt, hat]
  rw [Pool.get?, hlater]
  cases c with
  | unusable => exact absurd rfl hused
  | _ => rfl

theorem Extends.utf8At {s : String} (h : p.Extends q) (hs : p.utf8At i = .ok s) :
    q.utf8At i = .ok s := by
  unfold Pool.utf8At at hs
  split at hs
  · rename_i t ht
    rw [Pool.utf8At, h.get? ht]
    exact hs
  · cases hs

theorem Extends.className {name : String} (h : p.Extends q) (hname : p.className i = .ok name) :
    q.className i = .ok name := by
  unfold Pool.className at hname
  split at hname
  · rename_i t ht
    rw [Pool.className, h.get? ht]
    exact h.utf8At hname
  · cases hname

theorem Extends.nameAndTypeAt {names : String × String} (h : p.Extends q)
    (hnames : p.nameAndTypeAt i = .ok names) : q.nameAndTypeAt i = .ok names := by
  unfold Pool.nameAndTypeAt at hnames
  split at hnames
  · rename_i n d hentry
    cases hn : p.utf8At n with
    | error e =>
      rw [hn] at hnames
      cases hnames
    | ok name =>
      cases hd : p.utf8At d with
      | error e =>
        rw [hn, hd] at hnames
        cases hnames
      | ok descriptor =>
        rw [hn, hd] at hnames
        rw [Pool.nameAndTypeAt, h.get? hentry]
        simp only [h.utf8At hn, h.utf8At hd]
        exact hnames
  · cases hnames

theorem Extends.member {owner nat : UInt16} {interface : Bool} {m : MemberRef} (h : p.Extends q)
    (hm : p.member owner nat interface = .ok m) : q.member owner nat interface = .ok m := by
  unfold Pool.member at hm
  cases howner : p.className owner with
  | error e =>
    rw [howner] at hm
    cases hm
  | ok name =>
    cases hnat : p.nameAndTypeAt nat with
    | error e =>
      rw [howner, hnat] at hm
      cases hm
    | ok names =>
      rw [howner, hnat] at hm
      rw [Pool.member, h.className howner, h.nameAndTypeAt hnat]
      exact hm

theorem Extends.memberRef {m : MemberRef} (h : p.Extends q) (hm : p.memberRef i = .ok m) :
    q.memberRef i = .ok m := by
  unfold Pool.memberRef at hm
  split at hm
  · rename_i c n hentry
    rw [Pool.memberRef, h.get? hentry]
    exact h.member hm
  · rename_i c n hentry
    rw [Pool.memberRef, h.get? hentry]
    exact h.member hm
  · rename_i c n hentry
    rw [Pool.memberRef, h.get? hentry]
    exact h.member hm
  · cases hm

theorem Extends.invokeDynamic {names : String × String} (h : p.Extends q)
    (hnames : p.invokeDynamic i = .ok names) : q.invokeDynamic i = .ok names := by
  unfold Pool.invokeDynamic at hnames
  split at hnames
  · rename_i b nat hentry
    rw [Pool.invokeDynamic, h.get? hentry]
    exact h.nameAndTypeAt hnames
  · cases hnames

end Pool

namespace Code

open Reader

variable {p q : Pool}

/-- An operand that resolves is the same for a later pool. -/
theorem readOperand_along (h : p.Extends q) (length offset : Nat) (op : Opcode) :
    ReadsAlong (readOperand p length offset op) (readOperand q length offset op) Eq := by
  unfold readOperand
  cases op.layout with
  | field =>
    exact .after fun _ => (ReadsAlong.liftLocated fun _ hm => h.memberRef hm).before
  | invoke kind =>
    refine .after fun _ => ?_
    split
    · exact .after fun _ => (ReadsAlong.liftLocated fun _ hm => h.memberRef hm).before
    · exact (ReadsAlong.liftLocated fun _ hm => h.memberRef hm).before
  | dynamic =>
    exact .after fun _ => .after fun _ =>
      (ReadsAlong.liftLocated fun _ hnames => h.invokeDynamic hnames).before
  | type => exact .after fun _ => (ReadsAlong.liftLocated fun _ hname => h.className hname).before
  | multiArray =>
    exact .after fun _ => .after fun _ =>
      (ReadsAlong.liftLocated fun _ hname => h.className hname).before
  | _ => exact .refl _

theorem readInstruction_along (h : p.Extends q) (length : Nat) :
    ReadsAlong (readInstruction p length) (readInstruction q length) Eq := by
  refine .after fun offset => .after fun op => ?_
  split
  · exact .refl _
  · exact (readOperand_along h length offset op).before

theorem Ends.later (h : p.Extends q) {length : Nat} {c : Cursor} {is : List Instruction}
    (hends : Ends p length c (.ok is)) : Ends q length c (.ok is) := by
  generalize hresult : Except.ok is = result at hends
  induction hends generalizing is with
  | done hend => exact .done hend
  | failed => cases hresult
  | @more c d i result hleft hread _ ih =>
    cases result with
    | error e => cases hresult
    | ok read =>
      obtain ⟨_, hread', rfl⟩ := readInstruction_along h length c i d hread
      exact .more hleft hread' (ih rfl)

/-- Code that can be decoded means the same to every later pool. -/
theorem decode_later {label : String} {code : Bytes} {is : List Instruction} (h : p.Extends q)
    (his : decode label p code = .ok is) : decode label q code = .ok is := by
  have hends := decode_ends label p code
  rw [his] at hends
  exact (decode_ends label q code).unique (hends.later h)

end Code

end ClassAtlas
