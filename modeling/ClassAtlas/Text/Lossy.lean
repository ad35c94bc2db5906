import ClassAtlas.Text.Utf8

/-!
UTF-8 that may be malformed. `decodeLossy` reads any byte string; in place of every longest part
that begins a character but does not complete it, and of every byte that begins none, stands the
replacement character.
-/

namespace ClassAtlas.Utf8

/-- What stands for malformed bytes. -/
def replacement : Char := Char.ofNat 0xFFFD

/-- The begun form of a character: the value so far, how many bytes are missing, and the bounds of
the next one. -/
structure Begun where
  value : Nat
  missing : Nat
  least : UInt8
  greatest : UInt8
  deriving DecidableEq, Repr

/-- The form that a byte begins, if longer forms begin with it. The bounds of the second byte rule
out forms that are not the shortest and numbers that are no characters. -/
def begun? (b : UInt8) : Option Begun :=
  if b < 0xC2 then none
  else if b < 0xE0 then some ⟨b.toNat - 0xC0, 1, 0x80, 0xBF⟩
  else if b < 0xF0 then
    some ⟨b.toNat - 0xE0, 2, if b = 0xE0 then 0xA0 else 0x80, if b = 0xED then 0x9F else 0xBF⟩
  else if b < 0xF5 then
    some ⟨b.toNat - 0xF0, 3, if b = 0xF0 then 0x90 else 0x80, if b = 0xF4 then 0x8F else 0xBF⟩
  else none

/-- The characters read so far, in reverse, and what the last bytes have begun. -/
structure Progress where
  chars : List Char
  begun : Option Begun
  deriving DecidableEq, Repr

/-- What has been read after a byte that does not continue anything. -/
def Progress.first (chars : List Char) (b : UInt8) : Progress :=
  if b < 0x80 then ⟨Char.ofNat b.toNat :: chars, none⟩
  else
    match begun? b with
    | some form => ⟨chars, some form⟩
    | none => ⟨replacement :: chars, none⟩

/-- What has been read after one more byte. -/
def Progress.next (p : Progress) (b : UInt8) : Progress :=
  match p.begun with
  | none => .first p.chars b
  | some form =>
    if form.least ≤ b && b ≤ form.greatest then
      let value := form.value * 64 + low6 b
      if form.missing = 1 then ⟨Char.ofNat value :: p.chars, none⟩
      else ⟨p.chars, some ⟨value, form.missing - 1, 0x80, 0xBF⟩⟩
    else .first (replacement :: p.chars) b

def decodeLossy (bytes : List UInt8) : String :=
  let p := bytes.foldl Progress.next ⟨[], none⟩
  String.ofList (if p.begun.isSome then replacement :: p.chars else p.chars).reverse

end ClassAtlas.Utf8
