/-!
# Blank characters

`isBlank` is the White_Space property of Unicode, which is wider than the blanks of ASCII. Values
read from text are trimmed of it on both sides.
-/

namespace Formulary.Text

/-- Characters that separate words without being seen. -/
def isBlank (c : Char) : Bool :=
  let code := c.toNat
  (0x09 ≤ code && code ≤ 0x0D) || code == 0x20 || code == 0x85 || code == 0xA0 ||
  code == 0x1680 || (0x2000 ≤ code && code ≤ 0x200A) || code == 0x2028 || code == 0x2029 ||
  code == 0x202F || code == 0x205F || code == 0x3000

def trimStart (cs : List Char) : List Char := cs.dropWhile isBlank

def trim (cs : List Char) : List Char := (trimStart (trimStart cs).reverse).reverse

end Formulary.Text
