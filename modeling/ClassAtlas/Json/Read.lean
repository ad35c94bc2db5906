import ClassAtlas.Json.Value
import ClassAtlas.Text.Hex

/-!
Reading of JSON values. A member that is null counts as missing.
-/

namespace ClassAtlas.JsonValue

def text? : JsonValue → Option String
  | string s => some s
  | _ => none

def integer? : JsonValue → Option Int
  | number n => some n
  | _ => none

/-- The number of a value that is not negative. -/
def natural? : JsonValue → Option Nat
  | number n => if 0 ≤ n then some n.toNat else none
  | _ => none

def items? : JsonValue → Option (List JsonValue)
  | array items => some items
  | _ => none

def texts? (v : JsonValue) : Option (List String) :=
  v.items?.bind (·.mapM text?)

/-- A text, or nothing for null. -/
def optionalText? : JsonValue → Option (Option String)
  | null => some none
  | v => v.text?.map some

/-- The bytes whose digits a value holds. -/
def bytes? (v : JsonValue) : Option Bytes :=
  v.text?.bind Hex.decode?

def get? (v : JsonValue) (name : String) : Option JsonValue :=
  match v with
  | object members =>
    match members.lookup name with
    | some null => none
    | found => found
  | _ => none

/-- The items of the member of a name; without the member there are none. -/
def list? (v : JsonValue) (name : String) : Option (List JsonValue) :=
  match v.get? name with
  | some items => items.items?
  | none => some []

/-- Whether the member of a name is true. -/
def flag (v : JsonValue) (name : String) : Bool :=
  match v.get? name with
  | some (boolean b) => b
  | _ => false

/-- The values of the named fields of a structure: the members of an object, where others do not
matter, or the items of an array of just that length. -/
def fields? (v : JsonValue) (names : List String) : Option (List JsonValue) :=
  match v with
  | object members => names.mapM fun name => members.lookup name
  | array items => if items.length = names.length then some items else none
  | _ => none

/-- The word that a value stands for: a text, or the only member of an object, with no value. -/
def word? : JsonValue → Option String
  | string s => some s
  | object [(s, null)] => some s
  | _ => none

end ClassAtlas.JsonValue
