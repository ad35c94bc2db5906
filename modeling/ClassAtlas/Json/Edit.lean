import ClassAtlas.ClassFile.Edit
import ClassAtlas.Json.Recipe
import ClassAtlas.Text.Pieces

/-!
Reading of constants and of changes of declarations in JSON form: every change is an array of a word
and what the word asks for.
-/

namespace ClassAtlas

/-- The entry of a pool with a JSON form. -/
def Constant.ofJson? : JsonValue → Option Constant
  | .null => some unusable
  | .array [.string "utf8", .string text] => some (utf8 text)
  | .array [.string "int", .number n] => some (integer (.ofInt n))
  | .array [.string "float", .string bits] => (Hex.number? bits).map fun n => float n.toUInt32
  | .array [.string "long", .string digits] => digits.toInt?.map fun n => long (.ofInt n)
  | .array [.string "double", .string bits] => (Hex.number? bits).map fun n => double n.toUInt64
  | .array [.string word, .number i] =>
    match word with
    | "class" => some (classRef (.ofInt i))
    | "string" => some (string (.ofInt i))
    | "mtype" => some (methodType (.ofInt i))
    | "module" => some (module (.ofInt i))
    | "package" => some (package (.ofInt i))
    | _ => none
  | .array [.string word, .number a, .number b] =>
    match word with
    | "field" => some (fieldRef (.ofInt a) (.ofInt b))
    | "method" => some (methodRef (.ofInt a) (.ofInt b))
    | "imethod" => some (interfaceMethodRef (.ofInt a) (.ofInt b))
    | "nat" => some (nameAndType (.ofInt a) (.ofInt b))
    | "handle" => some (methodHandle (.ofInt a) (.ofInt b))
    | "dynamic" => some (dynamic (.ofInt a) (.ofInt b))
    | "indy" => some (invokeDynamic (.ofInt a) (.ofInt b))
    | _ => none
  | _ => none

/-- So many integer constants, one after the other. -/
def Constant.integers (first : Int) (count : Nat) : List Constant :=
  (CodeReader.numbers first count).map fun n => integer (.ofInt n)

/-- So many copies of a text in a row. -/
def Text.repeated (text : String) (count : Nat) : String :=
  String.ofList (List.replicate count text.toList).flatten

namespace ClassEdit

/-- A change of a field or method. -/
def member? : String → List JsonValue → Option MemberEdit
  | "name", [.string name] => some (.rename name)
  | "desc", [.string descriptor] => some (.descriptor descriptor)
  | "access", [.number bits] => some (.access (.ofInt bits))
  | "attr", [.string name, data] => data.bytes?.map fun bytes => .attach ⟨name, bytes⟩
  | _, _ => none

/-- A change of the code of a method. -/
def code? : String → List JsonValue → Option BodyEdit
  | "maxs", [.number stack, .number locals] => some (.limits (.ofInt stack) (.ofInt locals))
  | "code", [code] => code.bytes?.map .code
  | "code_attr", [.string name, data] => data.bytes?.map fun bytes => .attach ⟨name, bytes⟩
  | "handler", [start, stop, handler, catchType] => do
    return .handler ⟨← start.natural?, ← stop.natural?, ← handler.natural?,
      ← catchType.optionalText?⟩
  | "repeat_handler", [count] => count.natural?.map .repeatHandler
  | _, _ => none

/-- A change of a declaration as such. -/
def whole? : String → List JsonValue → Option ClassEdit
  | "version", [.number major, .number minor] => some (.version (.ofInt major) (.ofInt minor))
  | "access", [.number bits] => some (.access (.ofInt bits))
  | "name", [.string name] => some (.rename name)
  | "super", [name] => name.optionalText?.map .superclass
  | "interfaces", [names] => names.texts?.map .interfaces
  | "attr", [.string name, data] => data.bytes?.map fun bytes => .attach ⟨name, bytes⟩
  | "repeat_interface", [.string name, count] =>
    count.natural?.map fun n => .interfaces (List.replicate n name)
  | "repeat_attr", [.string scope, index, count] => do
    let index ← index.natural?
    let count ← count.natural?
    match scope with
    | "class" => some (.repeatAttribute count)
    | "field" => some (.field index (.repeatAttribute count))
    | "method" => some (.method index (.repeatAttribute count))
    | "code" => some (.body index (.repeatAttribute count))
    | _ => none
  | "intern", [c] => (Constant.ofJson? c).map fun c => .intern [c]
  | "intern_ints", [.number first, count] =>
    count.natural?.map fun n => .intern (Constant.integers first n)
  | "utf8_fill", [.string text, count] =>
    count.natural?.map fun n => .intern [.utf8 (Text.repeated text n)]
  | _, _ => none

/-- A change of the member at a position. -/
def at? (index : Nat) (word : String) (args : List JsonValue) : Option ClassEdit :=
  match word, args with
  | "remove_field", [] => some (.removeField index)
  | "remove_method", [] => some (.removeMethod index)
  | "no_body", [] => some (.dropBody index)
  | "repeat_field", [count] => count.natural?.map (.repeatField index)
  | _, _ =>
    match (Text.split '_' word, args) with
    | (["field", what], args) => (member? what args).map (.field index)
    | (["method", what], args) => (member? what args).map (.method index)
    | _ => (code? word args).map (.body index)

/-- The change with a JSON form. -/
def ofJson? : JsonValue → Option ClassEdit
  | .array (.string word :: args) =>
    (whole? word args).or
      (match args with
      | index :: args => index.natural?.bind fun i => at? i word args
      | [] => none)
  | _ => none

end ClassEdit

end ClassAtlas
