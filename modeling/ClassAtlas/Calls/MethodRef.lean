import Std.Data.TreeMap
import ClassAtlas.Error
import ClassAtlas.Name

/-!
References to methods and their written form: the owner, a dot, the name and the descriptor.
-/

namespace ClassAtlas

/-- A method, by the type that it belongs to, its name and its descriptor. -/
structure MethodRef where
  owner : String
  name : String
  descriptor : String
  deriving DecidableEq, Repr, Hashable, Inhabited

namespace MethodRef

/-- References are ordered by owner, then by name, then by descriptor. -/
instance : Ord MethodRef where
  compare a b := (compare a.owner b.owner).then
    ((compare a.name b.name).then (compare a.descriptor b.descriptor))

/-- The written form of a reference. -/
def toText (m : MethodRef) : String :=
  s!"{m.owner}.{m.name}{m.descriptor}"

/-- The parts of a list before and behind the last occurrence of a character. -/
def splitLast? (c : Char) (cs : List Char) : Option (List Char × List Char) :=
  match cs.reverse.span (· != c) with
  | (behind, _ :: before) => some (before.reverse, behind.reverse)
  | _ => none

/-- The reference with a written form, in which the owner may have dots for slashes. The descriptor
starts at the first parenthesis, and the last dot before it ends the owner. -/
def ofText (text : String) : Except NameError MethodRef :=
  match text.toList.span (· != '(') with
  | (head, '(' :: rest) =>
    match splitLast? '.' head with
    | some (o :: owner, n :: name) =>
      .ok ⟨Name.toInternal (String.ofList (o :: owner)), String.ofList (n :: name),
        String.ofList ('(' :: rest)⟩
    | _ => .error (.notMethod text)
  | _ => .error (.notMethod text)

/-- References in order. -/
def sort (refs : List MethodRef) : List MethodRef :=
  refs.mergeSort fun a b => (compare a b).isLE

end MethodRef

end ClassAtlas
