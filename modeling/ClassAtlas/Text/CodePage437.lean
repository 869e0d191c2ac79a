/-!
# Code page 437

Character set of archive entry names without the UTF-8 flag; its lower half is ASCII. Specification:
`SPEC_FULL.md` §10.6, lines 171–174.
-/

namespace ClassAtlas.Text.CodePage437

/-- Characters of the bytes from 128 on. -/
def upperHalf : Array Char :=
  ("ÇüéâäàåçêëèïîìÄÅÉæÆôöòûùÿÖÜ¢£¥₧ƒáíóúñÑªº¿⌐¬½¼¡«»░▒▓│┤╡╢╖╕╣║╗╝╜╛┐" ++
    "└┴┬├─┼╞╟╚╔╩╦╠═╬╧╨╤╥╙╘╒╓╫╪┘┌█▄▌▐▀αßΓπΣσµτΦΘΩδ∞φε∩≡±≥≤⌠⌡÷≈°∙·√ⁿ²■\u00a0").toList.toArray

/-- Character of a byte. -/
def decodeByte (byte : UInt8) : Char :=
  if byte < 0x80 then Char.ofNat byte.toNat else upperHalf[byte.toNat - 0x80]?.getD '?'

/-- Text of a byte sequence. -/
def decode (bytes : List UInt8) : String := String.ofList (bytes.map decodeByte)

end ClassAtlas.Text.CodePage437
