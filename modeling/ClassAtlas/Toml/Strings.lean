import ClassAtlas.Text.Quoted
import ClassAtlas.Toml.Scanner

/-!
Strings of TOML documents: basic ones with escapes and literal ones without, each on one line or
several, and the form in which a string is written.
-/

namespace ClassAtlas.Toml

/-- The value of a hexadecimal digit. -/
def hexDigit? (c : Char) : Option Nat :=
  if '0' ≤ c && c ≤ '9' then some (c.toNat - 48)
  else if 'a' ≤ c && c ≤ 'f' then some (c.toNat - 87)
  else if 'A' ≤ c && c ≤ 'F' then some (c.toNat - 55)
  else none

/-- A number of exactly so many hexadecimal digits, behind the digits read so far. -/
def hexNumber : (digits : Nat) → (value : Nat) → Scanner Nat
  | 0, value => return value
  | digits + 1, value => do
    match hexDigit? (← Scanner.next) with
    | some d => hexNumber digits (16 * value + d)
    | none => Scanner.fail

/-- The character of an escape, read behind the backslash. -/
def escape : Scanner Char := do
  let coded (digits : Nat) : Scanner Char := do
    let n ← hexNumber digits 0
    if n.isValidChar then return Char.ofNat n else Scanner.fail
  match ← Scanner.next with
  | 'b' => return '\x08'
  | 't' => return '\t'
  | 'n' => return '\n'
  | 'f' => return '\x0c'
  | 'r' => return '\r'
  | '"' => return '"'
  | '\\' => return '\\'
  | 'u' => coded 4
  | 'U' => coded 8
  | _ => Scanner.fail

def basicFrom : (steps : Nat) → List Char → Scanner String
  | 0, _ => Scanner.fail
  | steps + 1, acc => do
    let c ← Scanner.next
    if c == '"' then return String.ofList acc.reverse
    else if c == '\\' then basicFrom steps ((← escape) :: acc)
    else if isPlain c then basicFrom steps (c :: acc)
    else Scanner.fail

def literalFrom : (steps : Nat) → List Char → Scanner String
  | 0, _ => Scanner.fail
  | steps + 1, acc => do
    let c ← Scanner.next
    if c == '\'' then return String.ofList acc.reverse
    else if isPlain c then literalFrom steps (c :: acc)
    else Scanner.fail

/-- Takes a backslash at the end of a line, with the blank lines and blanks that follow. -/
def continuation : Scanner Bool := fun cs =>
  match (do
    Scanner.expect "\\"
    blanks
    if ← lineBreak then
      Scanner.whileMore do
        let taken ← Scanner.takeWhile isBlank
        return (← lineBreak) || !taken.isEmpty
    else Scanner.fail : Scanner Unit) cs with
  | some (_, rest) => some (true, rest)
  | none => some (false, cs)

/-- Reads on in a string of several lines between threefold quotes. One or two quotes may stand
inside and in front of the closing ones. -/
def linesFrom (quote : Char) (escapes : Bool) : (steps : Nat) → List Char → Scanner String
  | 0, _ => Scanner.fail
  | steps + 1, acc => do
    let quotes ← Scanner.takeWhile (· == quote)
    if quotes.length ≥ 3 then
      if quotes.length ≤ 5 then return String.ofList (quotes.drop 3 ++ acc).reverse
      else Scanner.fail
    else
      let acc := quotes ++ acc
      if ← lineBreak then linesFrom quote escapes steps ('\n' :: acc)
      else if escapes then
        if ← continuation then linesFrom quote escapes steps acc
        else
          let c ← Scanner.next
          if c == '\\' then linesFrom quote escapes steps ((← escape) :: acc)
          else if isPlain c then linesFrom quote escapes steps (c :: acc)
          else Scanner.fail
      else
        let c ← Scanner.satisfy isPlain
        linesFrom quote escapes steps (c :: acc)

def lineString : Scanner String := do
  let steps := (← get).length
  if ← Scanner.accept "\"" then basicFrom steps []
  else
    Scanner.expect "'"
    literalFrom steps []

/-- A string of any kind. A line end right behind threefold quotes does not count. -/
def string : Scanner String := do
  let steps := (← get).length + 1
  if ← Scanner.accept "\"\"\"" then
    let _ ← lineBreak
    linesFrom '"' true steps []
  else if ← Scanner.accept "'''" then
    let _ ← lineBreak
    linesFrom '\'' false steps []
  else lineString

/-- The length of the longest run of a character, behind a run and a longest run so far. -/
def longestRun (quote : Char) (run longest : Nat) : List Char → Nat
  | [] => max run longest
  | c :: cs =>
    if c == quote then longestRun quote (run + 1) longest cs
    else longestRun quote 0 (max run longest) cs

/-- How a string is written: with escapes or without, on one line or between threefold quotes. -/
inductive StringForm where
  | basic
  | literal
  | basicLines
  | literalLines
  deriving DecidableEq, Repr

namespace StringForm

/-- The form of a string: the first of the four that needs no escapes, and a basic one for what only
an escape can write. Threefold quotes allow one or two of their kind inside. -/
def choose (cs : List Char) : StringForm :=
  let lines := cs.contains '\n'
  let plain := cs.all fun c => isPlain c || c == '\n'
  let backslash := cs.contains '\\'
  let single := longestRun '\'' 0 0 cs
  let double := longestRun '"' 0 0 cs
  if plain && !backslash && double == 0 && !lines then basic
  else if plain && single == 0 && !lines then literal
  else if plain && !backslash && double ≤ 2 then basicLines
  else if plain && single ≤ 2 then literalLines
  else if lines then basicLines
  else basic

def quotes : StringForm → String
  | basic => "\""
  | literal => "'"
  | basicLines => "\"\"\""
  | literalLines => "'''"

def isThreefold : StringForm → Bool
  | basicLines => true
  | literalLines => true
  | _ => false

/-- Whether a backslash begins an escape. -/
def hasEscapes : StringForm → Bool
  | basic => true
  | basicLines => true
  | _ => false

end StringForm

/-- A character other than the double quote inside a basic string. -/
def writtenChar (threefold : Bool) (c : Char) : String :=
  if c == '\x08' then "\\b"
  else if c == '\t' then "\\t"
  else if c == '\n' then (if threefold then "\n" else "\\n")
  else if c == '\x0c' then "\\f"
  else if c == '\r' then "\\r"
  else if c == '\\' then "\\\\"
  else if isPlain c then c.toString
  else "\\u" ++ (Text.hexPadded 4 c.toNat).map Char.toUpper

/-- The characters of a basic string, behind a run of double quotes. Between threefold quotes two of
them may stand in a row as they are. -/
def writtenChars (threefold : Bool) (run : Nat) : List Char → List String
  | [] => []
  | c :: cs =>
    if c == '"' then
      if threefold && run < 2 then "\"" :: writtenChars threefold (run + 1) cs
      else "\\\"" :: writtenChars threefold 0 cs
    else writtenChar threefold c :: writtenChars threefold 0 cs

/-- The written form of a string. Behind threefold quotes, one with line breaks begins on a line of
its own. -/
def writtenString (s : String) : String :=
  let cs := s.toList
  let form := StringForm.choose cs
  let content := if form.hasEscapes then String.join (writtenChars form.isThreefold 0 cs) else s
  form.quotes ++ (if form.isThreefold && cs.contains '\n' then "\n" else "") ++ content ++
    form.quotes

end ClassAtlas.Toml
