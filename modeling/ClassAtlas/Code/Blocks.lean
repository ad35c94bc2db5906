import Std.Data.HashMap
import Std.Data.HashSet
import ClassAtlas.Code.Instruction

/-!
Basic blocks of a method body: maximal runs of instructions that control enters only at the front
and leaves only at the back, with the ways from block to block.
-/

namespace ClassAtlas

/-- A basic block: its number, the offsets of its start and end, and the positions of its
instructions in the method, the last one excluded. -/
structure BasicBlock where
  index : Nat
  start : Nat
  stop : Nat
  firstInstruction : Nat
  endInstruction : Nat
  deriving DecidableEq, Repr

/-- Why control goes from one block to another. -/
inductive TransferKind where
  | fallThrough
  | jump
  | branch
  | switchCase
  | subroutine
  | exception
  deriving DecidableEq, Repr, Hashable

def TransferKind.name : TransferKind → String
  | fallThrough => "fall-through"
  | jump => "jump"
  | branch => "branch"
  | switchCase => "switch-case"
  | subroutine => "subroutine"
  | exception => "exception"

/-- A way from one block to another. -/
structure Transfer where
  source : Nat
  target : Nat
  kind : TransferKind
  deriving DecidableEq, Repr, Hashable

/-- The blocks of a method body and the ways between them. -/
structure BlockGraph where
  blocks : List BasicBlock
  edges : List Transfer
  deriving DecidableEq, Repr

namespace BlockGraph

/-- The offsets that a transfer of control names. -/
def flowTargets : Flow → List Nat
  | .next => []
  | .goto target => [target]
  | .branch target => [target]
  | .subroutine target => [target]
  | .switch default targets => default :: targets
  | .exit => []

/-- Offsets at which blocks begin: targets, what follows the end of a block, and the ends and entry
points of handlers. -/
def leaders (instructions : List Instruction) (handlers : List Handler) : Std.HashSet Nat :=
  let jumps := instructions.flatMap fun i =>
    if i.endsBlock then i.nextOffset :: flowTargets i.flow else []
  let bounds := handlers.flatMap fun h => [h.start, h.stop, h.handler]
  Std.HashSet.ofList (jumps ++ bounds)

/-- The instructions cut into runs, each of which but the first begins at a leader. -/
def runs (isLeader : Nat → Bool) (instructions : List Instruction) : List (List Instruction) :=
  instructions.foldr
    (fun i acc =>
      match acc with
      | (j :: run) :: runs => if isLeader j.offset then [i] :: acc else (i :: j :: run) :: runs
      | _ => [i] :: acc)
    []

/-- The blocks made of runs, in reverse behind those made so far. -/
def blocksFrom (acc : List BasicBlock) (index position : Nat) :
    List (List Instruction) → List BasicBlock
  | [] => acc.reverse
  | run :: rest =>
    match run.head?, run.getLast? with
    | some first, some last =>
      let next := position + run.length
      blocksFrom (⟨index, first.offset, last.nextOffset, position, next⟩ :: acc) (index + 1) next
        rest
    | _, _ => blocksFrom acc index position rest

/-- How control leaves a run, as offsets in the order in which they are noted. -/
def exits (last : Instruction) : List (Nat × TransferKind) :=
  match last.flow with
  | .next => [(last.nextOffset, .fallThrough)]
  | .goto target => [(target, .jump)]
  | .branch target => [(target, .branch), (last.nextOffset, .fallThrough)]
  | .subroutine target => [(target, .subroutine), (last.nextOffset, .fallThrough)]
  | .switch default targets => (default :: targets).map (·, .switchCase)
  | .exit => []

/-- The list without repetitions; the first of equal entries stays. -/
def distinct (edges : List Transfer) : List Transfer :=
  (edges.foldl
    (fun (acc : List Transfer × Std.HashSet Transfer) e =>
      if acc.2.contains e then acc else (e :: acc.1, acc.2.insert e))
    ([], ∅)).1.reverse

/-- The way from a block to the one that starts at an offset, if one does. -/
def transfer? (starts : Std.HashMap Nat Nat) (source : Nat) (exit : Nat × TransferKind) :
    Option Transfer :=
  starts[exit.1]?.map fun target => ⟨source, target, exit.2⟩

def ofInstructions (instructions : List Instruction) (handlers : List Handler) : BlockGraph :=
  let leaders := leaders instructions handlers
  let runs := runs leaders.contains instructions
  let blocks := blocksFrom [] 0 0 runs
  let starts := Std.HashMap.ofList (blocks.map fun b => (b.start, b.index))
  let flow := (blocks.zip runs).flatMap fun (b, run) =>
    ((run.getLast?.map exits).getD []).filterMap (transfer? starts b.index)
  let thrown := handlers.flatMap fun h =>
    (blocks.filter fun b => h.covers b.start).filterMap fun b =>
      transfer? starts b.index (h.handler, .exception)
  ⟨blocks, distinct (flow ++ thrown)⟩

def isEmpty (g : BlockGraph) : Bool := g.blocks.isEmpty

/-- The targets of the ways out of a block. -/
def successors (g : BlockGraph) (block : Nat) : List Nat :=
  (g.edges.filter (·.source == block)).map (·.target)

/-- The sources of the ways into a block. -/
def predecessors (g : BlockGraph) (block : Nat) : List Nat :=
  (g.edges.filter (·.target == block)).map (·.source)

/-- The block that an offset lies in: the last one that starts there or before, if it does not end
before. -/
def blockAt? (g : BlockGraph) (offset : Nat) : Option BasicBlock :=
  (g.blocks.reverse.find? fun b => b.start ≤ offset).filter fun b => offset < b.stop

end BlockGraph

end ClassAtlas
