import ClassAtlas.Text.Utf8

/-!
Modified UTF-8, the text form of class files: every UTF-16 unit is written on its own in one to
three bytes, and the zero unit in two. Decoding takes plain UTF-8 as it is; all other byte strings
are read unit by unit, and units that pair with nothing become the replacement character.
-/

namespace ClassAtlas.ModifiedUtf8

/-- What stands for anything that cannot be read. -/
def replacement : Char := Char.ofNat 0xFFFD

/-- Whether a unit opens a surrogate pair. -/
def isHigh (u : UInt16) : Bool := u &&& 0xFC00 == 0xD800

/-- Whether a unit closes a surrogate pair. -/
def isLow (u : UInt16) : Bool := u &&& 0xFC00 == 0xDC00

def charUnits (c : Char) : List UInt16 :=
  let n := c.toNat
  if n < 0x10000 then [n.toUInt16]
  else [(0xD800 + (n - 0x10000) / 1024).toUInt16, (0xDC00 + (n - 0x10000) % 1024).toUInt16]

/-- The UTF-16 units of a text. -/
def units (s : String) : List UInt16 :=
  s.toList.flatMap charUnits

def pairChar (high low : UInt16) : Char :=
  Char.ofNat (0x10000 + (high &&& 0x3FF).toNat * 1024 + (low &&& 0x3FF).toNat)

def unitChar (u : UInt16) : Char :=
  if isHigh u || isLow u then replacement else Char.ofNat u.toNat

/-- The characters read so far, in reverse, followed by those of the remaining units. -/
def charsFrom (acc : List Char) : List UInt16 → List Char
  | [] => acc.reverse
  | [u] => (unitChar u :: acc).reverse
  | u :: v :: rest =>
    if isHigh u && isLow v then charsFrom (pairChar u v :: acc) rest
    else charsFrom (unitChar u :: acc) (v :: rest)

/-- The text of a list of UTF-16 units; a unit that pairs with nothing is replaced. -/
def ofUnits (us : List UInt16) : String :=
  String.ofList (charsFrom [] us)

def encodeUnit (u : UInt16) : List UInt8 :=
  if 0 < u && u < 0x80 then [u.toUInt8]
  else if u < 0x800 then
    [(0xC0 : UInt8) ||| (u >>> 6).toUInt8, (0x80 : UInt8) ||| (u &&& 0x3F).toUInt8]
  else
    [(0xE0 : UInt8) ||| (u >>> 12).toUInt8, (0x80 : UInt8) ||| ((u >>> 6) &&& 0x3F).toUInt8,
      (0x80 : UInt8) ||| (u &&& 0x3F).toUInt8]

/-- The modified UTF-8 form of a text. -/
def encode (s : String) : List UInt8 :=
  (units s).flatMap encodeUnit

/-- Value bits of a byte, as a unit. -/
def bits (b mask : UInt8) : UInt16 :=
  (b &&& mask).toUInt16

/-- The units read so far, in reverse, followed by those of the remaining bytes. A byte that opens
no complete form counts as one replacement unit. -/
def unitsFrom (acc : List UInt16) : List UInt8 → List UInt16
  | [] => acc.reverse
  | a :: rest =>
    if a &&& 0x80 == 0 then unitsFrom (a.toUInt16 :: acc) rest
    else if a &&& 0xE0 == 0xC0 then
      match rest with
      | b :: rest => unitsFrom ((bits a 0x1F <<< 6 ||| bits b 0x3F) :: acc) rest
      | [] => (0xFFFD :: acc).reverse
    else if a &&& 0xF0 == 0xE0 then
      match rest with
      | b :: c :: rest =>
        unitsFrom ((bits a 0x0F <<< 12 ||| bits b 0x3F <<< 6 ||| bits c 0x3F) :: acc) rest
      | rest => unitsFrom (0xFFFD :: acc) rest
    else unitsFrom (0xFFFD :: acc) rest
termination_by bytes => bytes.length

/-- The text that the bytes hold when they are read unit by unit. -/
def decodeUnits (bytes : List UInt8) : String :=
  ofUnits (unitsFrom [] bytes)

/-- The text of a modified UTF-8 byte string. -/
def decode (bytes : List UInt8) : String :=
  match Utf8.decode? bytes with
  | some s => s
  | none => decodeUnits bytes

end ClassAtlas.ModifiedUtf8
