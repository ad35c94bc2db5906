import ClassAtlas.Code.Blocks
import ClassAtlas.Json.Value

/-!
The JSON forms of instructions and of the blocks that they make up.
-/

namespace ClassAtlas

def JsonValue.switch (default : Nat) (targets : List Nat) : JsonValue :=
  .array [.string "switch", .number default, .array (targets.map fun (t : Nat) => .number t)]

def JsonValue.labelled (word : String) (n : Int) : JsonValue :=
  .array [.string word, .number n]

def Operand.toJson : Operand → JsonValue
  | none => .null
  | slot n => .labelled "local" n.toNat
  | jump target => .labelled "jump" target
  | switch default targets => .switch default targets
  | invoke c => .array [.string "invoke", .string c.kind.name, .string c.owner, .string c.name,
      .string c.descriptor, .boolean c.interface]
  | dynamic name descriptor => .strings ["dynamic", name, descriptor]
  | field owner name descriptor => .strings ["field", owner, name, descriptor]
  | type name => .strings ["type", name]
  | multiArray descriptor n => .array [.string "multi", .string descriptor, .number n.toNat]
  | constant i => .labelled "const" i.toNat
  | immediate n => .labelled "imm" n

/-- The way in which control leaves an instruction. -/
def Flow.toJson : Flow → JsonValue
  | next => .string "next"
  | goto target => .labelled "goto" target
  | branch target => .labelled "branch" target
  | subroutine target => .labelled "sub" target
  | switch default targets => .switch default targets
  | exit => .string "exit"

/-- An instruction with its operand and its ways out. -/
def Instruction.toJson (i : Instruction) : JsonValue :=
  .array [.number i.offset, .number i.opcode.toNat, .number i.length, .boolean i.wide,
    i.operand.toJson, i.flow.toJson, .boolean i.endsBlock, .boolean i.invocation?.isSome]

/-- A block with its offsets and its instructions. -/
def BasicBlock.toJson (b : BasicBlock) : JsonValue :=
  .object [("index", .number b.index), ("start", .number b.start), ("end", .number b.stop),
    ("instructions",
      .object [("start", .number b.firstInstruction), ("end", .number b.endInstruction)])]

/-- A way between two blocks. -/
def Transfer.toJson (t : Transfer) : JsonValue :=
  .object [("from", .number t.source), ("to", .number t.target), ("kind", .string t.kind.name)]

/-- The blocks of a method and the ways between them. -/
def BlockGraph.toJson (g : BlockGraph) : JsonValue :=
  .object [("blocks", .array (g.blocks.map BasicBlock.toJson)),
    ("edges", .array (g.edges.map Transfer.toJson))]

/-- The blocks of a method with their neighbours, and the blocks at some offsets. -/
def BlockGraph.survey (g : BlockGraph) (offsets : List Nat) : JsonValue :=
  let numbers (ns : List Nat) : JsonValue := .array (ns.map fun (n : Nat) => .number n)
  .object [("graph", g.toJson), ("empty", .boolean g.isEmpty),
    ("successors", .array (g.blocks.map fun b => numbers (g.successors b.index))),
    ("predecessors", .array (g.blocks.map fun b => numbers (g.predecessors b.index))),
    ("block_at", .array (offsets.map fun o =>
      match g.blockAt? o with
      | some b => .number b.index
      | none => .null))]

end ClassAtlas
