import ClassAtlas.ClassFile.Builder
import ClassAtlas.Json.Read

/-!
Recipes of classes in JSON form: every step is an array of a word and what the word asks for. Labels
are texts and belong to their method.
-/

namespace ClassAtlas

/-- Reading of code with the labels mentioned so far; a label stands for its position. -/
abbrev CodeReader := StateT (List String) Option

namespace CodeReader

/-- The number of a label. -/
def label (v : JsonValue) : CodeReader Nat := fun labels => do
  let name ← v.text?
  match labels.idxOf? name with
  | some i => return (i, labels)
  | none => return (labels.length, labels ++ [name])

/-- So many numbers one after the other. -/
def numbers (first : Int) (count : Nat) : List Int :=
  (List.range count).map fun (i : Nat) => first + i

/-- The statements of a step that mentions no labels. -/
def plain? : String → List JsonValue → Option (List Statement)
  | "insn", ops => ops.mapM fun op => op.integer?.map fun n => .plain (.ofInt n)
  | "raw", [code] => code.bytes?.map (·.map .plain)
  | "fill", [.number op, count] => count.natural?.map (List.replicate · (.plain (.ofInt op)))
  | "var", [.number op, .number slot] => some [.slot (.ofInt op) (.ofInt slot)]
  | "iinc", [.number slot, .number delta] => some [.increment (.ofInt slot) (.ofInt delta)]
  | "int", [.number value] => some [.pushInt (.ofInt value)]
  | "ints", [.number first, count] =>
    count.natural?.map fun n => (numbers first n).map fun value => .pushInt (.ofInt value)
  | "str", [.string text] => some [.pushString text]
  | "invoke", [.string kind, .string owner, .string name, .string descriptor] =>
    (InvokeKind.ofName? kind).map fun kind => [.invoke kind owner name descriptor]
  | "indy", [.string name, .string descriptor] => some [.invokeDynamic name descriptor]
  | "field", [.number op, .string owner, .string name, .string descriptor] =>
    some [.field (.ofInt op) owner name descriptor]
  | "type", [.number op, .string name] => some [.type (.ofInt op) name]
  | _, _ => none

/-- The statements of a step. Labels are numbered as the step mentions them. -/
def step (word : String) (args : List JsonValue) : CodeReader (List Statement) := do
  match word, args with
  | "label", [l] =>
    let _ ← label l
    return []
  | "bind", [l] => return [.bind (← label l)]
  | "jump", [.number op, l] => return [.jump (.ofInt op) (← label l)]
  | "tswitch", [.number low, default, .array targets] =>
    let default ← label default
    return [.tableSwitch (.ofInt low) default (← targets.mapM label)]
  | "try", [start, stop, handler, catchType] =>
    let start ← label start
    let stop ← label stop
    let handler ← label handler
    return [.handler start stop handler (← catchType.optionalText?)]
  | _, _ => plain? word args

def steps : List JsonValue → CodeReader (List Statement)
  | [] => return []
  | .array (.string word :: args) :: rest => do
    let statements ← step word args
    return statements ++ (← steps rest)
  | _ => failure

end CodeReader

/-- What a step declares. -/
def ClassItem.ofJson? : JsonValue → Option ClassItem
  | .array [.string "access", .number bits] => some (.access (.ofInt bits))
  | .array [.string "super", .string name] => some (.superclass name)
  | .array [.string "no_super"] => some .noSuperclass
  | .array [.string "interface", .string name] => some (.interface name)
  | .array [.string "field", .number bits, .string name, .string descriptor] =>
    some (.field (.ofInt bits) name descriptor)
  | .array [.string "abstract", .string name, .string descriptor] =>
    some (.abstractMethod name descriptor)
  | .array [.string "method", .number bits, .string name, .string descriptor, .array code] =>
    ((CodeReader.steps code).run []).map fun (statements, _) =>
      .method (.ofInt bits) name descriptor statements
  | _ => none

/-- The recipe of a class: its name, whether it is an interface, and the steps. -/
def ClassRecipe.ofJson? (v : JsonValue) : Option ClassRecipe := do
  let name ← (← v.get? "class").text?
  return ⟨name, v.flag "iface", ← (← v.list? "steps").mapM ClassItem.ofJson?⟩

end ClassAtlas
