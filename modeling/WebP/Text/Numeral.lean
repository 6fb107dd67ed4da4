import WebP.Bytes

/-!
# Numerals

Numbers are written in a base with lower-case digits, without a leading zero unless a least
number of digits is asked for.
-/

namespace WebP.Numeral

/-- The numeral of `n` in `base`, filled up with zeros in front to at least `width` digits. -/
def padded (base width n : Nat) : String :=
  let digits := Nat.toDigits base n
  String.ofList (List.replicate (width - digits.length) '0' ++ digits)

/-- The hexadecimal numeral of `n`. -/
def hex (n : Nat) : String := padded 16 1 n

/-- The hexadecimal numeral of `n` in at least eight digits. -/
def hex32 (n : Nat) : String := padded 16 8 n

/-- The bytes in order, two hexadecimal digits each. -/
def ofBytes (bytes : Bytes) : String :=
  String.join (bytes.map fun b => padded 16 2 b.toNat)

end WebP.Numeral
