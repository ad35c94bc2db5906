import ClassAtlas.Text.Escaped

/-!
Quoted text: the form in which names and constants appear inside messages. Quotes, backslashes and
the usual controls have a short escape, and characters that do not show are written by number.
-/

namespace ClassAtlas.Text

/-- Lower-case hexadecimal digits without leading zeros. -/
def hex (n : Nat) : String :=
  String.ofList (Nat.toDigits 16 n)

/-- Lower-case hexadecimal digits, filled with zeros to `digits` places. -/
def hexPadded (digits n : Nat) : String :=
  let s := hex n
  String.ofList (List.replicate (digits - s.length) '0') ++ s

def quoteChar (c : Char) : String :=
  if c == '\x00' then "\\0"
  else if c == '\t' then "\\t"
  else if c == '\r' then "\\r"
  else if c == '\n' then "\\n"
  else if c == '\\' then "\\\\"
  else if c == '"' then "\\\""
  else if isEscaped c then "\\u\x7b" ++ hex c.toNat ++ "\x7d"
  else c.toString

/-- A text between double quotes. Single quotes stand as they are. -/
def quoted (s : String) : String :=
  "\"" ++ s.toList.foldl (fun acc c => acc ++ quoteChar c) "" ++ "\""

end ClassAtlas.Text
