import ClassAtlas.Bytes.Basic
import ClassAtlas.Text.Lossy

/-!
The names of archive entries. They are written in UTF-8 where a flag says so, and else in the
character set of the first machines that had archives.
-/

namespace ClassAtlas.Zip

/-- The upper half of the old character set. -/
def oldCharacters : Array Char :=
  ("ÇüéâäàåçêëèïîìÄÅÉæÆôöòûùÿÖÜ¢£¥₧ƒáíóúñÑªº¿⌐¬½¼¡«»░▒▓│┤╡╢╖╕╣║╗╝╜╛┐└┴┬├─┼╞╟╚╔╩╦╠═╬╧╨╤╥╙╘╒╓╫╪┘┌" ++
    "█▄▌▐▀αßΓπΣσµτΦΘΩδ∞φε∩≡±≥≤⌠⌡÷≈°∙·√ⁿ²■\u00A0").toList.toArray

/-- The character of a byte in the old character set. -/
def oldCharacter (b : UInt8) : Char :=
  if b < 0x80 then Char.ofNat b.toNat else oldCharacters.getD (b.toNat - 128) ' '

def textOf (isUtf8 : Bool) (bytes : Bytes) : String :=
  if isUtf8 then Utf8.decodeLossy bytes else String.ofList (bytes.map oldCharacter)

end ClassAtlas.Zip
