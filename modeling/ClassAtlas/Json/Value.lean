import ClassAtlas.Text.Quoted

/-!
Values of the JSON data format and their written form on indented lines, in which the members of an
object are ordered by name.
-/

namespace ClassAtlas

inductive JsonValue where
  | null
  | boolean (value : Bool)
  | number (value : Int)
  | string (text : String)
  | array (items : List JsonValue)
  | object (members : List (String × JsonValue))
  deriving Repr, Inhabited

namespace JsonValue

def writtenChar (c : Char) : String :=
  if c == '"' then "\\\""
  else if c == '\\' then "\\\\"
  else if c == '\x08' then "\\b"
  else if c == '\t' then "\\t"
  else if c == '\n' then "\\n"
  else if c == '\x0c' then "\\f"
  else if c == '\r' then "\\r"
  else if c.toNat < 0x20 then "\\u" ++ Text.hexPadded 4 c.toNat
  else c.toString

def writtenString (s : String) : String :=
  "\"" ++ String.join (s.toList.map writtenChar) ++ "\""

/-- A line break and the blanks in front of a line of the given depth. -/
def indent (depth : Nat) : String :=
  "\n" ++ String.ofList (List.replicate (2 * depth) ' ')

/-- Parts that commas join, each on lines of its own one level deeper, in the given brackets. -/
def enclosed (opening closing : String) (depth : Nat) (parts : List String) : String :=
  if parts.isEmpty then opening ++ closing
  else
    opening ++ ",".intercalate (parts.map fun part => indent (depth + 1) ++ part) ++
      indent depth ++ closing

/-- Members in the order of their names. -/
def inOrder (parts : List (String × String)) : List (String × String) :=
  parts.mergeSort fun a b => decide (a.1 ≤ b.1)

mutual

/-- The written form of a value at a depth. -/
def writtenAt (depth : Nat) : JsonValue → String
  | null => "null"
  | boolean b => toString b
  | number n => toString n
  | string s => writtenString s
  | array items => enclosed "[" "]" depth (writtenItems (depth + 1) items)
  | object members =>
    enclosed "\x7b" "\x7d" depth
      ((inOrder (writtenMembers (depth + 1) members)).map fun (name, value) =>
        writtenString name ++ ": " ++ value)

/-- The written forms of items. -/
def writtenItems (depth : Nat) : List JsonValue → List String
  | [] => []
  | v :: vs => writtenAt depth v :: writtenItems depth vs

/-- The names of members with the written forms of their values. -/
def writtenMembers (depth : Nat) : List (String × JsonValue) → List (String × String)
  | [] => []
  | (name, v) :: rest => (name, writtenAt depth v) :: writtenMembers depth rest

end

/-- The written form of a value. -/
def render (v : JsonValue) : String :=
  writtenAt 0 v

/-- A text, or null. -/
def ofOption (s : Option String) : JsonValue :=
  match s with
  | some s => string s
  | none => null

def strings (ss : List String) : JsonValue :=
  array (ss.map string)

end JsonValue

end ClassAtlas
