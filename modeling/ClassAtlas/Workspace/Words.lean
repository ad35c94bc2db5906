import ClassAtlas.Workspace.Resolver

/-!
The plainest analysis of source texts: a text is a list of words between blanks, and every word has
to be the name of a type.
-/

namespace ClassAtlas

/-- Whether a character separates words. -/
def Text.isBlank (c : Char) : Bool :=
  let n := c.toNat
  (0x9 ≤ n && n ≤ 0xD) || n == 0x20 || n == 0x85 || n == 0xA0 || n == 0x1680 ||
    (0x2000 ≤ n && n ≤ 0x200A) || n == 0x2028 || n == 0x2029 || n == 0x202F || n == 0x205F ||
    n == 0x3000

/-- The pieces of a text between blanks, empty ones among them. -/
def Text.wordsFrom : List Char → List (List Char)
  | [] => [[]]
  | c :: cs =>
    if isBlank c then [] :: wordsFrom cs
    else
      match wordsFrom cs with
      | [] => [[c]]
      | word :: rest => (c :: word) :: rest

def Text.words (text : String) : List String :=
  ((wordsFrom text.toList).filter fun word => !word.isEmpty).map String.ofList

namespace WordParser

/-- Asks for the words that are not yet checked, with the unknown ones so far in reverse. -/
def check (name : String) (words unknown : List String) :
    List String → Inquiry (ParseOutcome (List String))
  | [] => .done (if unknown.isEmpty then .parsed words else .failed unknown.reverse)
  | word :: rest => .hasType word fun known =>
    check name words (if known then unknown else s!"{name}: {word}" :: unknown) rest

/-- Parses a text into its words, or else lists those that are not the name of a type. -/
def parser : SourceParser (List String) := fun name text =>
  check name (Text.words text) [] (Text.words text)

end WordParser

end ClassAtlas
