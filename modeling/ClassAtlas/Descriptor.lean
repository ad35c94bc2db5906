import ClassAtlas.Name

/-!
Descriptors, the written types of fields and methods: how they are cut into parts, how many stack
slots their values take, and how they read in source form.
-/

namespace ClassAtlas

namespace FieldType

/-- Stack and local slots that a value of the type takes. -/
def slots (descriptor : String) : Nat :=
  match descriptor.toList with
  | 'J' :: _ => 2
  | 'D' :: _ => 2
  | 'V' :: _ => 0
  | [] => 0
  | _ => 1

/-- Whether a letter stands for a primitive type. -/
def isPrimitive (c : Char) : Bool :=
  c == 'B' || c == 'C' || c == 'D' || c == 'F' || c == 'I' || c == 'J' || c == 'S' || c == 'Z'

/-- The first type of a text and what follows it. A class type has at least one character between
its letter and the first semicolon. -/
def split? (cs : List Char) : Option (List Char × List Char) :=
  let dims := cs.takeWhile (· == '[')
  match cs.dropWhile (· == '[') with
  | [] => none
  | c :: rest =>
    if isPrimitive c then some (dims ++ [c], rest)
    else if c == 'L' then
      let name := rest.takeWhile (· != ';')
      match rest.dropWhile (· != ';') with
      | _ :: after =>
        if name.isEmpty then none else some (dims ++ 'L' :: name ++ [';'], after)
      | [] => none
    else none

/-- The class between `L` and `;`, whatever the number of array brackets before it. -/
def referencedClass? (descriptor : String) : Option String :=
  match descriptor.toList.dropWhile (· == '[') with
  | 'L' :: rest =>
    if rest.getLast? = some ';' then some (String.ofList rest.dropLast) else none
  | _ => none

/-- The source form of a type: words for primitive types, dots in class names, brackets after. -/
def toSource (descriptor : String) : String :=
  let cs := descriptor.toList
  let base := String.ofList (cs.dropWhile (· == '['))
  let word :=
    match base with
    | "B" => "byte"
    | "C" => "char"
    | "D" => "double"
    | "F" => "float"
    | "I" => "int"
    | "J" => "long"
    | "S" => "short"
    | "Z" => "boolean"
    | "V" => "void"
    | other => ((referencedClass? other).map Name.toSource).getD other
  word ++ String.join ((cs.takeWhile (· == '[')).map fun _ => "[]")

end FieldType

/-- The parts of a method descriptor. -/
structure MethodType where
  params : List String
  ret : String
  deriving DecidableEq, Repr

namespace MethodType

/-- The types that a text is made of, if it is nothing but types. Every type is shorter than the
text before it, so the number of characters bounds the number of steps. -/
def params? : (steps : Nat) → List Char → Option (List String)
  | _, [] => some []
  | 0, _ :: _ => none
  | steps + 1, cs =>
    match FieldType.split? cs with
    | none => none
    | some (type, rest) => (params? steps rest).map (String.ofList type :: ·)

/-- Whether a text is exactly one field type. -/
def isFieldType (cs : List Char) : Bool :=
  match FieldType.split? cs with
  | some (_, []) => true
  | _ => false

/-- The parts of a descriptor: parameters between the opening parenthesis and the first closing one,
and the return type behind it. -/
def parse (descriptor : String) : Except DecodeError MethodType :=
  match descriptor.toList with
  | '(' :: rest =>
    match rest.dropWhile (· != ')') with
    | _ :: ret =>
      let args := rest.takeWhile (· != ')')
      match params? args.length args with
      | some params =>
        if ret = ['V'] || isFieldType ret then .ok ⟨params, String.ofList ret⟩
        else .error ⟨descriptor, .malformedDescriptor⟩
      | none => .error ⟨descriptor, .malformedDescriptor⟩
    | [] => .error ⟨descriptor, .malformedDescriptor⟩
  | _ => .error ⟨descriptor, .malformedDescriptor⟩

/-- Slots that the parameters take, the receiver not counted. -/
def paramSlots (m : MethodType) : Nat :=
  m.params.foldr (fun p slots => FieldType.slots p + slots) 0

/-- Slots that the returned value takes. -/
def returnSlots (m : MethodType) : Nat :=
  if m.ret = "V" then 0 else FieldType.slots m.ret

end MethodType

end ClassAtlas
