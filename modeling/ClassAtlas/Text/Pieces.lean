/-!
Cutting texts at a separator.
-/

namespace ClassAtlas.Text

/-- The pieces of a list between occurrences of a separator. -/
def pieces (sep : Char) : List Char → List (List Char)
  | [] => [[]]
  | c :: cs =>
    if c == sep then [] :: pieces sep cs
    else match pieces sep cs with
      | [] => [[c]]
      | piece :: rest => (c :: piece) :: rest

/-- The pieces of a text between occurrences of a separator. -/
def split (sep : Char) (s : String) : List String :=
  (pieces sep s.toList).map String.ofList

end ClassAtlas.Text
