import Std.Data.HashMap
import ClassAtlas.Code.Decode
import ClassAtlas.Descriptor

/-!
Limits of a method body. The number of locals is read off the slots that are touched; the depth of
the operand stack comes from a search over the control flow that revisits an instruction whenever it
is entered deeper than before.
-/

namespace ClassAtlas

namespace Instruction

/-- Slots that the instruction adds to the operand stack. Calls need a well-formed descriptor. -/
def stackEffect (i : Instruction) : Except DecodeError Int :=
  match i.operand with
  | .field _ _ descriptor =>
    let size : Int := FieldType.slots descriptor
    .ok (if i.opcode == Opcode.getstatic then size
      else if i.opcode == Opcode.putstatic then -size
      else if i.opcode == Opcode.getfield then size - 1
      else -size - 1)
  | .invoke call =>
    match MethodType.parse call.descriptor with
    | .ok type =>
      let receiver : Int := if call.kind = .static then 0 else 1
      .ok (type.returnSlots - type.paramSlots - receiver)
    | .error e => .error e
  | .dynamic _ descriptor =>
    match MethodType.parse descriptor with
    | .ok type => .ok (type.returnSlots - type.paramSlots)
    | .error e => .error e
  | .multiArray _ dimensions => .ok (1 - dimensions.toNat)
  | _ => .ok i.opcode.stackEffect

/-- The number of local slots that the instruction needs. -/
def localsNeeded (i : Instruction) : Nat :=
  match i.operand with
  | .slot slot =>
    slot.toNat + if i.opcode == Opcode.iinc || i.opcode == Opcode.ret then 1
      else i.opcode.localWidth
  | _ => 0

/-- Where control goes on, in the order in which it is noted, with the depth there. Control comes
back from a subroutine at the depth before the call. -/
def successors (i : Instruction) (entry after : Nat) : List (Nat × Nat) :=
  match i.flow with
  | .next => [(i.nextOffset, after)]
  | .goto target => [(target, after)]
  | .branch target => [(target, after), (i.nextOffset, after)]
  | .subroutine target => [(target, after), (i.nextOffset, entry)]
  | .switch default targets => (default, after) :: targets.map (·, after)
  | .exit => []

end Instruction

/-- A code array as instructions, found by position or by offset. -/
structure Listing where
  items : Array Instruction
  positions : Std.HashMap Nat Nat

namespace Listing

/-- The listing of a decoded code array. -/
def ofList (instructions : List Instruction) : Listing where
  items := instructions.toArray
  positions := Std.HashMap.ofList (instructions.zipIdx.map fun (i, n) => (i.offset, n))

/-- A depth that only a loop which deepens the stack can exceed: no instruction adds more than two
slots, and a search starts no deeper than one. -/
def depthLimit (l : Listing) : Nat :=
  2 * l.items.size + 1

end Listing

namespace StackDepth

/-- What is left to find out: for each instruction, how far the depths at which it may still be
entered reach above the greatest one known. -/
def slack (limit : Nat) (known : Array Nat) : Nat :=
  known.toList.foldr (fun depth rest => (limit + 1 - depth) + rest) 0

/-- Replacing one number of a list by a greater one within the limit leaves less room to it. -/
theorem room_set_lt (limit : Nat) (xs : List Nat) (i v : Nat) (h : i < xs.length)
    (hv : xs[i] < v) (hle : v ≤ limit + 1) :
    (xs.set i v).foldr (fun depth rest => (limit + 1 - depth) + rest) 0 <
      xs.foldr (fun depth rest => (limit + 1 - depth) + rest) 0 := by
  induction xs generalizing i with
  | nil => simp at h
  | cons x xs ih =>
    cases i with
    | zero =>
      simp only [List.getElem_cons_zero] at hv
      simp only [List.set_cons_zero, List.foldr_cons]
      omega
    | succ i =>
      have := ih i (by simpa using h) (by simpa using hv)
      simp only [List.set_cons_succ, List.foldr_cons]
      omega

/-- Entering an instruction deeper than before, within the limit, leaves less to find out. -/
theorem slack_set_lt (limit : Nat) (known : Array Nat) (i v : Nat) (h : i < known.size)
    (hlt : known[i] < v) (hle : v ≤ limit + 1) :
    slack limit (known.set i v h) < slack limit known := by
  unfold slack
  rw [Array.toList_set]
  exact room_set_lt limit known.toList i v (by simpa using h) (by simpa using hlt) hle

/-- The greatest depth met by a search. `known` holds for each instruction one more than the depth
at which it was last entered, or zero, and `pending` the places still to be visited, the next one in
front. A place is passed over if its instruction was entered as deep before; otherwise its
successors are noted, the last one in front.

`growingStack` is the answer for a loop that deepens the stack each time round, which is cut at
`depthLimit` here. With depths of 32 bits it is an error too but not one of its own: the loop is
followed until a depth no longer fits, and that sum turns negative, which is an `underflow`, or, where
sums are checked, stops the program. -/
def search (label : String) (l : Listing) (known : Array Nat) (pending : List (Nat × Nat))
    (deepest : Nat) : Except Error Nat :=
  match pending with
  | [] => .ok deepest
  | (offset, entry) :: pending =>
    match l.positions[offset]? with
    | none => .error (.encode (.noInstruction label offset))
    | some n =>
      if h : n < known.size ∧ n < l.items.size then
        if hk : known[n] > entry then search label l known pending deepest
        else if hd : entry > l.depthLimit then .error (.encode (.growingStack label))
        else
          let i := l.items[n]
          match i.stackEffect with
          | .error e => .error (.decode e)
          | .ok effect =>
            let after := (entry : Int) + effect
            if after < 0 then .error (.encode (.underflow label offset))
            else search label l (known.set n (entry + 1) h.1)
              ((i.successors entry after.toNat).reverse ++ pending)
              (max (max deepest entry) after.toNat)
      else .error (.encode (.noInstruction label offset))
termination_by (slack l.depthLimit known, pending.length)
decreasing_by
  · exact Prod.Lex.right _ (by simp)
  · exact Prod.Lex.left _ _ (slack_set_lt _ _ _ _ h.1 (by omega) (by omega))

/-- The depth of operand stack that instructions need, entered at their start with an empty stack
and at every handler with one value. -/
def ofInstructions (label : String) (instructions : List Instruction) (handlers : List Handler) :
    Except Error Nat :=
  if instructions.isEmpty then .ok 0
  else search label (Listing.ofList instructions) (Array.replicate instructions.length 0)
    ((handlers.map fun h => (h.handler, 1)).reverse ++ [(0, 0)]) 0

end StackDepth

/-- The name of a method in messages. -/
def MethodDecl.label (owner : String) (m : MethodDecl) : String :=
  s!"{owner}.{m.name}{m.descriptor}"

/-- Local slots of a method: its parameters and receiver, and every slot that its code touches. -/
def localsOf (m : MethodDecl) (type : MethodType) (instructions : List Instruction) : Nat :=
  instructions.foldl (fun n i => max n i.localsNeeded)
    (type.paramSlots + if m.access.isStatic then 0 else 1)

/-- The stack depth and the number of locals that the code of a method needs. -/
def ClassDecl.limits (d : ClassDecl) (m : MethodDecl) (body : MethodBody) :
    Except Error (UInt16 × UInt16) :=
  let label := m.label d.name
  match MethodType.parse m.descriptor with
  | .error e => .error (.decode e)
  | .ok type =>
    match d.instructions body with
    | .error e => .error (.decode e)
    | .ok instructions =>
      let locals := localsOf m type instructions
      if locals < 65536 then
        match StackDepth.ofInstructions label instructions body.handlers with
        | .error e => .error e
        | .ok depth =>
          if depth < 65536 then .ok (depth.toUInt16, locals.toUInt16)
          else .error (.encode (.stackLimit label depth))
      else .error (.encode (.localsLimit label locals))

end ClassAtlas
