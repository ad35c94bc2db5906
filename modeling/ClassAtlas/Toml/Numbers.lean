import ClassAtlas.Toml.Scanner

/-!
Numbers, dates and times of TOML documents.
-/

namespace ClassAtlas.Toml

/-- Digits in groups that single underscores part. -/
def digitGroups (isDigit : Char → Bool) : Scanner (List Char) := do
  let first ← Scanner.satisfy isDigit
  let rest ← Scanner.takeWhile fun c => isDigit c || c == '_'
  let text := first :: rest
  let parted := text.getLast? == some '_' ||
    (text.zip rest).any fun (a, b) => a == '_' && b == '_'
  if parted then Scanner.fail else return text.filter (· != '_')

def ofDigits (base : Nat) (digits : List Char) : Nat :=
  digits.foldl
    (fun n c =>
      let d := if c ≤ '9' then c.toNat - 48 else if c ≤ 'F' then c.toNat - 55 else c.toNat - 87
      base * n + d)
    0

/-- Takes a sign, and tells whether it was a minus. -/
def sign : Scanner Bool := do
  if ← Scanner.accept "-" then return true
  else
    let _ ← Scanner.accept "+"
    return false

/-- Decimal digits without a needless zero in front. -/
def decimalDigits : Scanner (List Char) := do
  if ← Scanner.accept "0" then return ['0'] else digitGroups Char.isDigit

/-- An integer that fits 64 bits. -/
def integer : Scanner Int := do
  let based (base : Nat) (isDigit : Char → Bool) : Scanner Int := do
    let n := ofDigits base (← digitGroups isDigit)
    if n < 9223372036854775808 then return n else Scanner.fail
  if ← Scanner.accept "0x" then
    based 16 fun c => c.isDigit || ('a' ≤ c && c ≤ 'f') || ('A' ≤ c && c ≤ 'F')
  else if ← Scanner.accept "0o" then based 8 fun c => '0' ≤ c && c ≤ '7'
  else if ← Scanner.accept "0b" then based 2 fun c => c == '0' || c == '1'
  else
    let negative ← sign
    let n : Int := ofDigits 10 (← decimalDigits)
    let v := if negative then -n else n
    if -9223372036854775808 ≤ v ∧ v < 9223372036854775808 then return v else Scanner.fail

/-- Whether `mantissa` times ten to the power `exponent` is too great for a double. -/
def overflows (mantissa : Nat) (exponent : Int) : Bool :=
  let digits : Int := (Nat.toDigits 10 mantissa).length
  if mantissa = 0 ∨ digits + exponent ≤ 308 then false
  else if digits + exponent > 310 then true
  else
    let limit := Nat.pow 2 1024 - Nat.pow 2 970
    if exponent ≥ 0 then mantissa * Nat.pow 10 exponent.toNat ≥ limit
    else mantissa ≥ limit * Nat.pow 10 (-exponent).toNat

def floatExponent : Scanner Int := do
  let _ ← Scanner.satisfy fun c => c == 'e' || c == 'E'
  let negative ← sign
  let n : Int := ofDigits 10 (← digitGroups Char.isDigit)
  return if negative then -n else n

/-- A number of floating point. It has a fraction, an exponent or both, and is not too great. -/
def float : Scanner Unit := do
  let negative ← sign
  if ← Scanner.accept "inf" then return ()
  else if ← Scanner.accept "nan" then return ()
  else
    let whole ← decimalDigits
    let (fraction, exponent) ←
      if ← Scanner.accept "." then
        let fraction ← digitGroups Char.isDigit
        match ← Scanner.peek? with
        | some 'e' => pure (fraction, ← floatExponent)
        | some 'E' => pure (fraction, ← floatExponent)
        | _ => pure (fraction, 0)
      else pure ([], ← floatExponent)
    if !negative && overflows (ofDigits 10 (whole ++ fraction)) (exponent - fraction.length) then
      Scanner.fail
    else return ()

/-- A number of exactly so many decimal digits. -/
def fixedDigits : (digits : Nat) → (value : Nat) → Scanner Nat
  | 0, value => return value
  | digits + 1, value => do
    let c ← Scanner.satisfy Char.isDigit
    fixedDigits digits (10 * value + (c.toNat - 48))

def daysIn (year month : Nat) : Nat :=
  if month = 2 then
    if year % 4 = 0 ∧ (year % 100 ≠ 0 ∨ year % 400 = 0) then 29 else 28
  else if month = 4 ∨ month = 6 ∨ month = 9 ∨ month = 11 then 30
  else 31

def date : Scanner Unit := do
  let year ← fixedDigits 4 0
  Scanner.expect "-"
  let month ← fixedDigits 2 0
  Scanner.expect "-"
  let day ← fixedDigits 2 0
  if 1 ≤ month ∧ month ≤ 12 ∧ 1 ≤ day ∧ day ≤ daysIn year month then return () else Scanner.fail

def time : Scanner Unit := do
  let hour ← fixedDigits 2 0
  Scanner.expect ":"
  let minute ← fixedDigits 2 0
  Scanner.expect ":"
  let second ← fixedDigits 2 0
  if ← Scanner.accept "." then
    let _ ← Scanner.satisfy Char.isDigit
    let _ ← Scanner.takeWhile Char.isDigit
  if hour ≤ 23 ∧ minute ≤ 59 ∧ second ≤ 60 then return () else Scanner.fail

/-- The distance of a time from that of the prime meridian. -/
def zone : Scanner Unit := do
  if ← Scanner.accept "Z" then return ()
  else if ← Scanner.accept "z" then return ()
  else
    let _ ← Scanner.satisfy fun c => c == '+' || c == '-'
    let hour ← fixedDigits 2 0
    Scanner.expect ":"
    let minute ← fixedDigits 2 0
    if hour ≤ 23 ∧ minute ≤ 59 then return () else Scanner.fail

def dateTime : Scanner Unit :=
  (do
    date
    (do
      let _ ← Scanner.satisfy fun c => c == 'T' || c == 't' || c == ' '
      time
      zone <|> pure ()) <|> pure ()) <|> time

end ClassAtlas.Toml
