import ClassAtlas.ClassFile.Declaration
import ClassAtlas.Error
import ClassAtlas.Layer.Stack

/-!
Names in source texts: which unit a name stands for, what that unit declares, and how the analysis
of a text asks for both.
-/

namespace ClassAtlas

namespace Name

/-- The characters with the first `n` slashes replaced by dollar signs. -/
def nest : Nat → List Char → List Char
  | 0, cs => cs
  | _, [] => []
  | n + 1, c :: cs => if c == '/' then '$' :: nest n cs else c :: nest (n + 1) cs

/-- The internal name with its last `n` slashes replaced by dollar signs. -/
def nestLast (n : Nat) (name : String) : String :=
  String.ofList (nest n name.toList.reverse).reverse

/-- What a name can stand for: the class itself, then a class nested in what the name without its
last segment stands for, and so on outwards. -/
def candidates (name : String) : List String :=
  let internal := toInternal name
  (List.range (internal.toList.count '/' + 1)).map fun n => nestLast n internal

end Name

/-- The unit that a name in source or internal form stands for. -/
def LayerStack.resolveName (s : LayerStack) (name : String) : Option String :=
  if name.isEmpty then none else (Name.candidates name).find? s.hasUnit

/-- A field or method as a resolver of source names sees it. -/
structure MemberInfo where
  name : String
  descriptor : String
  access : Access
  deriving DecidableEq, Repr

structure TypeMembers where
  name : String
  isInterface : Bool
  superName : Option String
  interfaces : List String
  fields : List MemberInfo
  methods : List MemberInfo
  deriving DecidableEq, Repr

namespace TypeMembers

/-- What the declaration of a unit of the given name declares. -/
def ofDecl (name : String) (d : ClassDecl) : TypeMembers where
  name := name
  isInterface := d.isInterface
  superName := d.superName
  interfaces := d.interfaces
  fields := d.fields.map fun f => ⟨f.name, f.descriptor, f.access⟩
  methods := d.methods.map fun m => ⟨m.name, m.descriptor, m.access⟩

/-- The first field of a name. -/
def field? (t : TypeMembers) (name : String) : Option MemberInfo :=
  t.fields.find? (·.name == name)

def methodsNamed (t : TypeMembers) (name : String) : List MemberInfo :=
  t.methods.filter (·.name == name)

end TypeMembers

/-- What came out of the analysis of a text. -/
inductive ParseOutcome (τ : Type) where
  | parsed (tree : τ)
  | failed (problems : List String)
  deriving DecidableEq, Repr

namespace ParseOutcome

variable {τ : Type}

/-- Whether the analysis succeeded. -/
def isParsed : ParseOutcome τ → Bool
  | parsed _ => true
  | failed _ => false

/-- The result of a successful analysis. -/
def tree? : ParseOutcome τ → Option τ
  | parsed tree => some tree
  | failed _ => none

/-- The problems of a failed analysis. -/
def problems : ParseOutcome τ → List String
  | parsed _ => []
  | failed problems => problems

end ParseOutcome

/-- A computation that asks what names stand for. -/
inductive Inquiry (α : Type) where
  | done (a : α)
  | hasType (name : String) (next : Bool → Inquiry α)
  | members (name : String) (next : Except Error (Option TypeMembers) → Inquiry α)

/-- The analysis of the text that is attached to a name. -/
abbrev SourceParser (τ : Type) := (name text : String) → Inquiry (ParseOutcome τ)

end ClassAtlas
