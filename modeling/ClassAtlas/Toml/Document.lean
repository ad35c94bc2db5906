import ClassAtlas.Toml.Numbers
import ClassAtlas.Toml.Strings
import ClassAtlas.Toml.Value

/-!
Reading of TOML documents. Values nest in arrays and braces up to a fixed depth, and a document is a
sequence of lines, each with a header or with a key and its value.
-/

namespace ClassAtlas.Toml

def isKeyChar (c : Char) : Bool :=
  c.isAlphanum || c == '_' || c == '-'

def simpleKey : Scanner String := do
  match ← Scanner.peek? with
  | some '"' => lineString
  | some '\'' => lineString
  | _ =>
    match ← Scanner.takeWhile isKeyChar with
    | [] => Scanner.fail
    | cs => return String.ofList cs

/-- The parts of a key behind those read so far, which dots part. -/
def keyFrom : (steps : Nat) → List String → Scanner (List String)
  | 0, _ => Scanner.fail
  | steps + 1, acc => do
    blanks
    let part ← simpleKey
    blanks
    if ← Scanner.accept "." then keyFrom steps (part :: acc) else return (part :: acc).reverse

/-- The greatest depth of nested values, and the length that no dotted key reaches. -/
def nestingLimit : Nat := 80

/-- A key: the parts in front of the last one, and the last one. -/
def key : Scanner (List String × String) := do
  let parts ← keyFrom nestingLimit []
  match parts.getLast? with
  | some last =>
    if parts.length < nestingLimit then return (parts.dropLast, last) else Scanner.fail
  | none => Scanner.fail

/-- The items of an array behind those read so far, up to the closing bracket. -/
def itemsFrom (item : Scanner Value) : (steps : Nat) → List Value → Scanner Value
  | 0, _ => Scanner.fail
  | steps + 1, acc => do
    gap
    if ← Scanner.accept "]" then return .array acc.reverse
    else
      let v ← item
      gap
      if ← Scanner.accept "," then itemsFrom item steps (v :: acc)
      else
        Scanner.expect "]"
        return .array (v :: acc).reverse

/-- The entries of a table in braces behind those read so far, up to the closing brace. -/
def entriesFrom (item : Scanner Value) : (steps : Nat) → Table → Scanner Value
  | 0, _ => Scanner.fail
  | steps + 1, acc => do
    let (path, last) ← key
    Scanner.expect "="
    blanks
    let v ← item
    blanks
    match insertDotted acc path last v with
    | none => Scanner.fail
    | some acc =>
      if ← Scanner.accept "," then entriesFrom item steps acc
      else
        Scanner.expect "\x7d"
        return .table .braced acc

/-- A value that starts with a digit or a sign. -/
def numeral : Scanner Value :=
  (do dateTime; return .dateTime) <|> (do float; return .float) <|>
    (do return .integer (← integer))

/-- A value that holds no others. -/
def scalar : Scanner Value := do
  match ← Scanner.peek? with
  | some '"' => return .string (← string)
  | some '\'' => return .string (← string)
  | some 't' =>
    Scanner.expect "true"
    return .boolean true
  | some 'f' =>
    Scanner.expect "false"
    return .boolean false
  | _ => numeral

/-- A value in which others nest at most to the given depth. -/
def value : (depth : Nat) → Scanner Value
  | 0 => scalar
  | depth + 1 => do
    let steps := (← get).length + 1
    if ← Scanner.accept "[" then itemsFrom (value depth) steps []
    else if ← Scanner.accept "\x7b" then
      blanks
      if ← Scanner.accept "\x7d" then return .table .braced []
      else entriesFrom (value depth) steps []
    else scalar

/-- What has been read of a document: all its tables, and the keys that lead to the one that the
latest header has opened. -/
structure Draft where
  root : Table
  header : List String

def need {α : Type} : Option α → Scanner α
  | some a => pure a
  | none => Scanner.fail

def line (d : Draft) : Scanner Draft := do
  blanks
  match ← Scanner.peek? with
  | some '[' =>
    let element ← Scanner.accept "[["
    if !element then Scanner.expect "["
    let (path, last) ← key
    Scanner.expect (if element then "]]" else "]")
    restOfLine
    let root ← need ((if element then openElement else openTable) d.root path last)
    return ⟨root, path ++ [last]⟩
  | some '#' =>
    restOfLine
    return d
  | some '\n' =>
    restOfLine
    return d
  | some '\r' =>
    restOfLine
    return d
  | none => return d
  | _ =>
    let (path, last) ← key
    Scanner.expect "="
    blanks
    let v ← value (nestingLimit - 1)
    restOfLine
    let root ← need (atHeader (fun t => insertDotted t path last v) d.root d.header)
    return { d with root }

/-- Reads lines up to the end. -/
def linesOf : (steps : Nat) → Draft → Scanner Table
  | 0, d => return d.root
  | steps + 1, d => do
    if ← Scanner.atEnd then return d.root else linesOf steps (← line d)

/-- The root table of a document. A mark of the byte order in front does not count. -/
def parse? (text : String) : Option Table :=
  let cs := text.toList
  let cs := if cs.head? == some (Char.ofNat 0xFEFF) then cs.tail else cs
  ((linesOf (cs.length + 1) ⟨[], []⟩).run cs).map Prod.fst

end ClassAtlas.Toml
