/-!
Scanning of text from the front, with what all parts of a TOML document have in common: blanks, line
ends and comments.
-/

namespace ClassAtlas.Toml

/-- A step that takes characters from the front of a text, or fails. -/
abbrev Scanner := StateT (List Char) Option

namespace Scanner

variable {α : Type}

def fail : Scanner α := fun _ => none

/-- The next character, which is not taken. -/
def peek? : Scanner (Option Char) := fun cs => some (cs.head?, cs)

def next : Scanner Char
  | [] => none
  | c :: cs => some (c, cs)

/-- Takes the given text if it comes next, and tells whether it did. -/
def accept (text : String) : Scanner Bool := fun cs =>
  if text.toList.isPrefixOf cs then some (true, cs.drop text.length) else some (false, cs)

/-- Takes the given text, which must come next. -/
def expect (text : String) : Scanner Unit := do
  if ← accept text then return () else fail

/-- Takes characters as long as they pass a test. -/
def takeWhile (p : Char → Bool) : Scanner (List Char) := fun cs =>
  some (cs.takeWhile p, cs.dropWhile p)

/-- Takes a character that must pass a test. -/
def satisfy (p : Char → Bool) : Scanner Char := do
  let c ← next
  if p c then return c else fail

/-- The characters that a step takes. -/
def consumed (s : Scanner Unit) : Scanner String := fun cs =>
  match s cs with
  | some (_, rest) => some (String.ofList (cs.take (cs.length - rest.length)), rest)
  | none => none

/-- Runs a step as often as it asks for more, at most `steps` times. -/
def loop (step : Scanner Bool) : (steps : Nat) → Scanner Unit
  | 0 => return ()
  | steps + 1 => do
    if ← step then loop step steps

/-- Runs a step as long as it asks for more; it must take a character each time. -/
def whileMore (step : Scanner Bool) : Scanner Unit := do
  loop step ((← get).length + 1)

def atEnd : Scanner Bool := fun cs => some (cs.isEmpty, cs)

end Scanner

/-- A blank within a line. -/
def isBlank (c : Char) : Bool := c == ' ' || c == '\t'

/-- A character that may stand as it is in comments and in all kinds of strings, their delimiters
excepted. -/
def isPlain (c : Char) : Bool :=
  c == '\t' || (0x20 ≤ c.toNat && c.toNat != 0x7F)

def blanks : Scanner Unit := do
  let _ ← Scanner.takeWhile isBlank

/-- Takes a line end, and tells whether there was one. -/
def lineBreak : Scanner Bool := do
  if ← Scanner.accept "\n" then return true else Scanner.accept "\r\n"

/-- Takes a comment, and tells whether there was one. -/
def comment : Scanner Bool := do
  if ← Scanner.accept "#" then
    let _ ← Scanner.takeWhile isPlain
    return true
  else return false

/-- Takes what may stand at the end of a line, and the line end. -/
def restOfLine : Scanner Unit := do
  blanks
  let _ ← comment
  if ← Scanner.atEnd then return ()
  else if ← lineBreak then return ()
  else Scanner.fail

/-- Takes blanks, comments and line ends. -/
def gap : Scanner Unit :=
  Scanner.whileMore do
    blanks
    let _ ← comment
    lineBreak

end ClassAtlas.Toml
