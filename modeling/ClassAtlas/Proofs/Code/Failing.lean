import ClassAtlas.Proofs.Bytes.Failing
import ClassAtlas.Proofs.Code.Tiling

/-!
What code is refused for. An instruction that cannot be read is reported at its place in the code,
and so is an operand that points to a slot of the pool in vain, with the whole text of the look-up.
So the instructions of a class are only ever refused under the name of the class.
-/

namespace ClassAtlas.Code

open Reader

theorem readInstruction_composed (pool : Pool) (length : Nat) :
    Composed (readInstruction pool length) := by
  unfold readInstruction
  refine Composed.position.bind fun offset => Composed.u8.bind fun op => ?_
  split
  · exact Composed.u8.bind fun op => (readWidened_composed op).bind fun _ =>
      Composed.position.bind fun _ => .pure _
  · exact (readOperand_composed pool length offset op).bind fun _ =>
      Composed.position.bind fun _ => .pure _

/-- Reading instructions ends with the failure of one of them, which is under the same label. -/
theorem Ends.located {pool : Pool} {length : Nat} {c : Cursor} {e : DecodeError}
    (h : Ends pool length c (.error e)) : Located c.label e := by
  generalize hresult : Except.error e = result at h
  induction h with
  | done => cases hresult
  | @failed c _ _ _ hread =>
    cases hresult
    have hfails := (readInstruction_composed pool length).reports c.label (fun _ => False) c rfl
    rw [hread] at hfails
    exact hfails.resolve_right id
  | @more c c' _ result _ hread _ ih =>
    cases result with
    | ok instructions => cases hresult
    | error x =>
      cases hresult
      have hlabel : c'.label = c.label := (readInstruction_extent hread).2.2.2.1
      rw [← hlabel]
      exact ih rfl

/-- Code is refused at a place in it, under the label. -/
theorem decode_error {label : String} {pool : Pool} {code : Bytes} {e : DecodeError}
    (h : decode label pool code = .error e) : Located label e := by
  have hends := decode_ends label pool code
  rw [h] at hends
  exact hends.located

end ClassAtlas.Code
