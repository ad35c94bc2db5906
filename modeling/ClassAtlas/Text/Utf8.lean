/-!
UTF-8 over lists of bytes. `encode` writes a text, and `decode?` accepts exactly the well-formed
byte strings: shortest forms of scalar values.
-/

namespace ClassAtlas.Utf8

/-- Whether a byte continues a longer form. -/
def isContinuation (b : UInt8) : Bool :=
  b &&& 0xC0 == 0x80

/-- The six value bits of a continuation byte. -/
def low6 (b : UInt8) : Nat :=
  (b &&& 0x3F).toNat

/-- The UTF-8 form of a character. -/
def encodeChar (c : Char) : List UInt8 :=
  let n := c.toNat
  if n < 0x80 then [n.toUInt8]
  else if n < 0x800 then [(0xC0 + n / 64).toUInt8, (0x80 + n % 64).toUInt8]
  else if n < 0x10000 then
    [(0xE0 + n / 4096).toUInt8, (0x80 + n / 64 % 64).toUInt8, (0x80 + n % 64).toUInt8]
  else
    [(0xF0 + n / 262144).toUInt8, (0x80 + n / 4096 % 64).toUInt8,
      (0x80 + n / 64 % 64).toUInt8, (0x80 + n % 64).toUInt8]

/-- The UTF-8 form of a text. -/
def encode (s : String) : List UInt8 :=
  s.toList.flatMap encodeChar

/-- The character of a code point that is a scalar value of at least `least`. -/
def scalar? (least n : Nat) : Option Char :=
  if least ≤ n ∧ n.isValidChar then some (Char.ofNat n) else none

/-- The character whose form the byte `a` opens, and the bytes behind that form. -/
def next? (a : UInt8) (rest : List UInt8) : Option (Char × List UInt8) :=
  if a < 0x80 then some (Char.ofNat a.toNat, rest)
  else if a &&& 0xE0 == 0xC0 then
    match rest with
    | b :: rest =>
      if isContinuation b then
        (scalar? 0x80 ((a &&& 0x1F).toNat * 64 + low6 b)).map (·, rest)
      else none
    | _ => none
  else if a &&& 0xF0 == 0xE0 then
    match rest with
    | b :: c :: rest =>
      if isContinuation b && isContinuation c then
        (scalar? 0x800 ((a &&& 0x0F).toNat * 4096 + low6 b * 64 + low6 c)).map (·, rest)
      else none
    | _ => none
  else if a &&& 0xF8 == 0xF0 then
    match rest with
    | b :: c :: d :: rest =>
      if isContinuation b && isContinuation c && isContinuation d then
        (scalar? 0x10000
          ((a &&& 0x07).toNat * 262144 + low6 b * 4096 + low6 c * 64 + low6 d)).map (·, rest)
      else none
    | _ => none
  else none

theorem next?_suffix {a : UInt8} {rest behind : List UInt8} {c : Char}
    (h : next? a rest = some (c, behind)) : behind <:+ rest := by
  revert h
  fun_cases next? a rest <;> intro h
  any_goals cases h
  · exact List.suffix_rfl
  all_goals
    obtain ⟨_, _, h⟩ := Option.map_eq_some_iff.mp h
    cases h
  · exact ⟨[_], rfl⟩
  · exact ⟨[_, _], rfl⟩
  · exact ⟨[_, _, _], rfl⟩

/-- The characters decoded so far, in reverse, followed by those of the remaining bytes. -/
def decodeFrom? (acc : List Char) : List UInt8 → Option (List Char)
  | [] => some acc.reverse
  | a :: rest =>
    match _h : next? a rest with
    | some (c, behind) => decodeFrom? (c :: acc) behind
    | none => none
termination_by bytes => bytes.length
decreasing_by exact Nat.lt_succ_of_le (next?_suffix (by assumption)).length_le

/-- The text of a well-formed UTF-8 byte string. -/
def decode? (bytes : List UInt8) : Option String :=
  (decodeFrom? [] bytes).map String.ofList

end ClassAtlas.Utf8
