import ClassAtlas.Text.Quoted

/-!
The entries of a constant pool. Numbers of floating point are kept as their raw bits, and entries
that name others hold the index of the slot that they name.
-/

namespace ClassAtlas

/-- A constant pool entry. -/
inductive Constant where
  | utf8 (text : String)
  | integer (value : Int32)
  | float (bits : UInt32)
  | long (value : Int64)
  | double (bits : UInt64)
  | classRef (name : UInt16)
  | string (text : UInt16)
  | fieldRef (owner nameAndType : UInt16)
  | methodRef (owner nameAndType : UInt16)
  | interfaceMethodRef (owner nameAndType : UInt16)
  | nameAndType (name descriptor : UInt16)
  | methodHandle (kind : UInt8) (reference : UInt16)
  | methodType (descriptor : UInt16)
  | dynamic (bootstrap nameAndType : UInt16)
  | invokeDynamic (bootstrap nameAndType : UInt16)
  | module (name : UInt16)
  | package (name : UInt16)
  /-- Slot zero, and the second slot of a wide number. -/
  | unusable
  deriving DecidableEq, Hashable, Repr, Inhabited

namespace Constant

/-- Whether the entry takes two slots. -/
def isWide : Constant → Bool
  | long _ => true
  | double _ => true
  | _ => false

/-- The form of an entry in messages. -/
def describe : Constant → String
  | utf8 s => s!"Utf8({Text.quoted s})"
  | integer v => s!"Integer({v.toInt})"
  | float bits => s!"Float({bits.toNat})"
  | long v => s!"Long({v.toInt})"
  | double bits => s!"Double({bits.toNat})"
  | classRef i => s!"Class({i.toNat})"
  | string i => s!"String({i.toNat})"
  | fieldRef a b => s!"FieldRef({a.toNat}, {b.toNat})"
  | methodRef a b => s!"MethodRef({a.toNat}, {b.toNat})"
  | interfaceMethodRef a b => s!"InterfaceMethodRef({a.toNat}, {b.toNat})"
  | nameAndType a b => s!"NameAndType({a.toNat}, {b.toNat})"
  | methodHandle kind i => s!"MethodHandle({kind.toNat}, {i.toNat})"
  | methodType i => s!"MethodType({i.toNat})"
  | dynamic a b => s!"Dynamic({a.toNat}, {b.toNat})"
  | invokeDynamic a b => s!"InvokeDynamic({a.toNat}, {b.toNat})"
  | module i => s!"Module({i.toNat})"
  | package i => s!"Package({i.toNat})"
  | unusable => "Unusable"

/-- The form in messages of a slot that may hold nothing. -/
def describe? : Option Constant → String
  | none => "None"
  | some c => s!"Some({c.describe})"

end Constant

end ClassAtlas
