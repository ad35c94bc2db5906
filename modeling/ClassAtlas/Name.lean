import ClassAtlas.Error
import ClassAtlas.Text.Pieces

/-!
Names of units. The internal form separates segments by slashes and marks nested classes by dollar
signs, the source form has dots for both, and an archive entry adds a suffix.
-/

namespace ClassAtlas.Name

/-- The root of every class hierarchy. -/
def object : String := "java/lang/Object"

/-- The suffix of an archive entry that holds a unit. -/
def classSuffix : String := ".class"

/-- The text with every character of one kind replaced by another. -/
def replaceChar (s : String) (old new : Char) : String :=
  String.ofList (s.toList.map fun c => if c == old then new else c)

/-- The internal form of a source name. -/
def toInternal (name : String) : String :=
  replaceChar name '.' '/'

/-- The source form of an internal name. -/
def toSource (name : String) : String :=
  replaceChar (replaceChar name '/' '.') '$' '.'

/-- The text without the given ending, if it has it. -/
def dropSuffix? (s suffix : String) : Option String :=
  let cs := s.toList
  let ts := suffix.toList
  if ts.isSuffixOf cs then some (String.ofList (cs.take (cs.length - ts.length))) else none

/-- The archive entry of a unit. -/
def toEntry (name : String) : String :=
  name ++ classSuffix

/-- The unit that an archive entry holds, if its name says that it holds one. -/
def ofEntry? (entry : String) : Option String :=
  (dropSuffix? entry classSuffix).filter fun name => !name.isEmpty

def segments (name : String) : List String :=
  Text.split '/' name

/-- Refuses what is not the internal name of a class: the empty name, names with a dot, semicolon or
bracket, and names with an empty segment. -/
def validate (name : String) : Except NameError Unit :=
  if name.isEmpty then .error .empty
  else if name.toList.any fun c => c == '.' || c == ';' || c == '[' then .error (.notInternal name)
  else if (segments name).any String.isEmpty then .error (.emptySegment name)
  else .ok ()

end ClassAtlas.Name
