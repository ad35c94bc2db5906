/-!
The content of TOML documents: values, and tables whose entries keep their order.
-/

namespace ClassAtlas.Toml

/-- How a table came to be, which decides what may be added to it. -/
inductive TableKind where
  /-- By a header of its own, as the root, or as an element of an array of tables. -/
  | header
  /-- By a header of a table below it. -/
  | implied
  /-- By a dotted key. -/
  | dotted
  /-- As a value in braces, which is complete. -/
  | braced
  deriving DecidableEq, Repr, Inhabited

/-- A value. Numbers of floating point and dates are only known to be well-formed. -/
inductive Value where
  | string (text : String)
  | integer (value : Int)
  | float
  | boolean (value : Bool)
  | dateTime
  | array (items : List Value)
  | table (kind : TableKind) (entries : List (String × Value))
  /-- An array of tables that have headers of their own. -/
  | tables (items : List (List (String × Value)))
  deriving Repr, Inhabited

/-- The entries of a table, in the order in which they were added. -/
abbrev Table := List (String × Value)

namespace Table

def get? (t : Table) (key : String) : Option Value :=
  t.lookup key

/-- The table with a value in place of the one of the same key, or at the end. -/
def set (t : Table) (key : String) (v : Value) : Table :=
  match t with
  | [] => [(key, v)]
  | (k, w) :: rest => if k == key then (k, v) :: rest else (k, w) :: set rest key v

end Table

/-- Changes the table that a path of keys leads to. Missing tables on the way are made, of the given
kind. Values in braces are closed; where dotted keys lead, tables with headers are closed too. The
change is told whether it meets a table made by dotted keys. -/
def descend (made : TableKind) (change : Bool → Table → Option Table) (isDotted : Bool)
    (t : Table) : List String → Option Table
  | [] => change isDotted t
  | key :: path =>
    match t.get? key with
    | none => do
      let inner ← descend made change (made == .dotted) [] path
      return t.set key (.table made inner)
    | some (.table kind entries) =>
      if kind == .braced || (made == .dotted && kind == .header) then none
      else do
        let inner ← descend made change (kind == .dotted) entries path
        return t.set key (.table kind inner)
    | some (.tables items) =>
      match items.reverse with
      | [] => none
      | last :: before => do
        let inner ← descend made change false last path
        return t.set key (.tables (inner :: before).reverse)
    | some _ => none

/-- Adds a value under a dotted key, the last part of which must be new. Parts before it must not
lead to tables that were made otherwise. -/
def insertDotted (t : Table) (path : List String) (key : String) (v : Value) : Option Table :=
  descend .dotted
    (fun isDotted inner =>
      if isDotted == path.isEmpty || (inner.get? key).isSome then none
      else some (inner.set key v))
    false t path

/-- Changes the table that the latest header has opened. -/
def atHeader (change : Table → Option Table) (t : Table) : List String → Option Table
  | [] => change t
  | key :: path =>
    match t.get? key with
    | some (.table kind entries) => do
      let inner ← atHeader change entries path
      return t.set key (.table kind inner)
    | some (.tables items) =>
      match items.reverse with
      | [] => none
      | last :: before => do
        let inner ← atHeader change last path
        return t.set key (.tables (inner :: before).reverse)
    | _ => none

/-- Opens a table by a header. It must be new, or known only as one that lies around others. -/
def openTable (t : Table) (path : List String) (key : String) : Option Table :=
  descend .implied
    (fun _ inner =>
      match inner.get? key with
      | none => some (inner.set key (.table .header []))
      | some (.table .implied entries) => some (inner.set key (.table .header entries))
      | some _ => none)
    false t path

def openElement (t : Table) (path : List String) (key : String) : Option Table :=
  descend .implied
    (fun _ inner =>
      match inner.get? key with
      | none => some (inner.set key (.tables [[]]))
      | some (.tables items) => some (inner.set key (.tables (items ++ [[]])))
      | some _ => none)
    false t path

end ClassAtlas.Toml
