/-!
# Code page 437

The character set in which archives name their records unless they say otherwise. The lower half is
ASCII.
-/

namespace JarAudit.Text.CodePage437

/-- The characters of the bytes from 0x80 on. -/
def upperHalf : List Char :=
  ("ÇüéâäàåçêëèïîìÄÅÉæÆôöòûùÿÖÜ¢£¥₧ƒ" ++ "áíóúñÑªº¿⌐¬½¼¡«»░▒▓│┤╡╢╖╕╣║╗╝╜╛┐" ++
    "└┴┬├─┼╞╟╚╔╩╦╠═╬╧╨╤╥╙╘╒╓╫╪┘┌█▄▌▐▀" ++
    "αßΓπΣσµτΦΘΩδ∞φε∩≡±≥≤⌠⌡÷≈°∙·√ⁿ²■\u00a0").toList

/-- The character of a byte. -/
def char (byte : UInt8) : Char :=
  if byte < 0x80 then Char.ofNat byte.toNat
  else upperHalf.getD (byte.toNat - 0x80) '\ufffd'

/-- The text that bytes stand for. -/
def decode (bytes : List UInt8) : String := String.ofList (bytes.map char)

end JarAudit.Text.CodePage437
