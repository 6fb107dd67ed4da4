import WebP.Text.Numeral

/-!
# Four-character codes

Every chunk of a RIFF file is named by four bytes. A name of printable characters reads as text,
shorter names being filled up with spaces on the right; any other name reads as a number.

## Main definitions

* `WebP.FourCC`: a code, with `FourCC.text`, its readable form.
* `WebP.FourCC.ofName?`: the code of a name.
* the codes that a WebP file gives a meaning to, `FourCC.riff` to `FourCC.xmp`.
-/

namespace WebP

/-- The four bytes that name a chunk or a kind of file. -/
structure FourCC where
  first : UInt8
  second : UInt8
  third : UInt8
  fourth : UInt8
deriving DecidableEq, Repr, Inhabited

namespace FourCC

/-- The code written with four ASCII characters. -/
def ofChars (a b c d : Char) : FourCC := ⟨a.toUInt8, b.toUInt8, c.toUInt8, d.toUInt8⟩

def riff : FourCC := ofChars 'R' 'I' 'F' 'F'
def webp : FourCC := ofChars 'W' 'E' 'B' 'P'
def alph : FourCC := ofChars 'A' 'L' 'P' 'H'
def anim : FourCC := ofChars 'A' 'N' 'I' 'M'
def anmf : FourCC := ofChars 'A' 'N' 'M' 'F'
def exif : FourCC := ofChars 'E' 'X' 'I' 'F'
def iccp : FourCC := ofChars 'I' 'C' 'C' 'P'
def vp8 : FourCC := ofChars 'V' 'P' '8' ' '
def vp8l : FourCC := ofChars 'V' 'P' '8' 'L'
def vp8x : FourCC := ofChars 'V' 'P' '8' 'X'
def xmp : FourCC := ofChars 'X' 'M' 'P' ' '

/-- The four bytes in the order in which a file holds them. -/
def bytes (code : FourCC) : Bytes := [code.first, code.second, code.third, code.fourth]

/-- The code at the start of a byte string, if it has four bytes. -/
def ofBytes? : Bytes → Option FourCC
  | a :: b :: c :: d :: _ => some ⟨a, b, c, d⟩
  | _ => none

/-- The code of a name of at most four bytes, filled up with spaces on the right. -/
def ofName? (name : String) : Option FourCC :=
  let bytes := name.toUTF8.toList
  if bytes.length ≤ 4 then ofBytes? (bytes ++ List.replicate (4 - bytes.length) 0x20) else none

/-- Space and the visible ASCII characters. -/
def isPrintable (b : UInt8) : Bool := 0x20 ≤ b && b ≤ 0x7e

/-- A list without the spaces at its two ends. -/
def trimSpaces (cs : List Char) : List Char :=
  ((cs.dropWhile (· == ' ')).reverse.dropWhile (· == ' ')).reverse

/-- The name without the spaces around it, or the number that the bytes write most significant
first if one of them is not printable. -/
def text (code : FourCC) : String :=
  if code.bytes.all isPrintable then
    String.ofList (trimSpaces (code.bytes.map fun b => Char.ofNat b.toNat))
  else
    "0x" ++ Numeral.ofBytes code.bytes

@[simp] theorem ofBytes?_bytes_append (code : FourCC) (rest : Bytes) :
    ofBytes? (code.bytes ++ rest) = some code := rfl

@[simp] theorem length_bytes (code : FourCC) : code.bytes.length = 4 := rfl

end FourCC

end WebP
