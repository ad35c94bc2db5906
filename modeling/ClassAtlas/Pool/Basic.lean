import Std.Data.HashMap
import ClassAtlas.Error

/-!
Constant pools. Entries keep their slots, so indices held by code and attributes stay valid; a new
entry goes to the end, and a constant that is already present is found again by its first slot.
-/

namespace ClassAtlas

/-- A constant pool: the slots in order, and the first slot of every constant that was added. -/
structure Pool where
  entries : Array Constant
  index : Std.HashMap Constant UInt16

/-- A resolved reference to a field or method. -/
structure MemberRef where
  owner : String
  name : String
  descriptor : String
  /-- Whether the entry names a method of an interface. -/
  interface : Bool
  deriving DecidableEq, Repr

namespace Pool

/-- The pool with slot zero only. -/
def empty : Pool :=
  ⟨#[.unusable], ∅⟩

instance : Inhabited Pool := ⟨empty⟩

/-- Number of slots, slot zero included. -/
def slotCount (p : Pool) : Nat :=
  p.entries.size

/-- The entry at an index, if the slot holds one. -/
def get? (p : Pool) (i : UInt16) : Option Constant :=
  match p.entries[i.toNat]? with
  | some .unusable => none
  | found => found

/-- Appends an entry; a wide one takes the slot after it too. -/
def push (p : Pool) (c : Constant) : Pool :=
  let i := p.entries.size.toUInt16
  let entries := p.entries.push c
  { entries := if c.isWide then entries.push .unusable else entries
    index := p.index.insertIfNew c i }

/-- The index of a constant, which is appended if it is not there. -/
def intern (p : Pool) (c : Constant) : UInt16 × Pool :=
  match p.index[c]? with
  | some i => (i, p)
  | none => (p.entries.size.toUInt16, p.push c)

/-- The index of a text. -/
def utf8 (p : Pool) (s : String) : UInt16 × Pool :=
  p.intern (.utf8 s)

def classEntry (p : Pool) (name : String) : UInt16 × Pool :=
  let (i, p) := p.utf8 name
  p.intern (.classRef i)

/-- The index of a string entry. -/
def string (p : Pool) (s : String) : UInt16 × Pool :=
  let (i, p) := p.utf8 s
  p.intern (.string i)

/-- The index of a number. -/
def integer (p : Pool) (v : Int32) : UInt16 × Pool :=
  p.intern (.integer v)

def nameAndType (p : Pool) (name descriptor : String) : UInt16 × Pool :=
  let (n, p) := p.utf8 name
  let (d, p) := p.utf8 descriptor
  p.intern (.nameAndType n d)

/-- The index of a field reference. -/
def fieldRef (p : Pool) (owner name descriptor : String) : UInt16 × Pool :=
  let (c, p) := p.classEntry owner
  let (n, p) := p.nameAndType name descriptor
  p.intern (.fieldRef c n)

/-- The index of a method reference, to a method of an interface or of a class. -/
def methodRef (p : Pool) (owner name descriptor : String) (interface : Bool) : UInt16 × Pool :=
  let (c, p) := p.classEntry owner
  let (n, p) := p.nameAndType name descriptor
  p.intern (if interface then .interfaceMethodRef c n else .methodRef c n)

def lookupError (i : UInt16) (expected : PoolKind) (found : Option Constant) : DecodeError :=
  ⟨s!"constant #{i.toNat}", .wrongEntry expected found⟩

/-- The text at an index. -/
def utf8At (p : Pool) (i : UInt16) : Except DecodeError String :=
  match p.get? i with
  | some (.utf8 s) => .ok s
  | found => .error (lookupError i .utf8 found)

def className (p : Pool) (i : UInt16) : Except DecodeError String :=
  match p.get? i with
  | some (.classRef name) => p.utf8At name
  | found => .error (lookupError i .classEntry found)

/-- The name of the class entry at an index, where index zero stands for no class. -/
def optionalClassName (p : Pool) (i : UInt16) : Except DecodeError (Option String) :=
  if i = 0 then .ok none
  else match p.className i with
    | .ok name => .ok (some name)
    | .error e => .error e

/-- The name and descriptor at an index. -/
def nameAndTypeAt (p : Pool) (i : UInt16) : Except DecodeError (String × String) :=
  match p.get? i with
  | some (.nameAndType n d) =>
    match p.utf8At n with
    | .ok name =>
      match p.utf8At d with
      | .ok descriptor => .ok (name, descriptor)
      | .error e => .error e
    | .error e => .error e
  | found => .error (lookupError i .nameAndType found)

/-- The member with the given class and name entries. -/
def member (p : Pool) (owner nat : UInt16) (interface : Bool) : Except DecodeError MemberRef :=
  match p.className owner with
  | .ok owner =>
    match p.nameAndTypeAt nat with
    | .ok (name, descriptor) => .ok ⟨owner, name, descriptor, interface⟩
    | .error e => .error e
  | .error e => .error e

/-- The field or method that the entry at an index refers to. -/
def memberRef (p : Pool) (i : UInt16) : Except DecodeError MemberRef :=
  match p.get? i with
  | some (.fieldRef c n) => p.member c n false
  | some (.methodRef c n) => p.member c n false
  | some (.interfaceMethodRef c n) => p.member c n true
  | found => .error (lookupError i .member found)

/-- The name and descriptor of the dynamic call site at an index. -/
def invokeDynamic (p : Pool) (i : UInt16) : Except DecodeError (String × String) :=
  match p.get? i with
  | some (.invokeDynamic _ nat) => p.nameAndTypeAt nat
  | found => .error (lookupError i .invokeDynamic found)

end Pool

end ClassAtlas
