/-
White space in the sense of Unicode's White_Space property, and cutting it off the ends of a text.
-/

namespace Verdicts.Text

/-- The characters with Unicode's White_Space property, by code point. -/
def isBlank (c : Char) : Bool :=
  let n := c.toNat
  (0x09 ≤ n && n ≤ 0x0D) || n == 0x20 || n == 0x85 || n == 0xA0 || n == 0x1680
    || (0x2000 ≤ n && n ≤ 0x200A) || n == 0x2028 || n == 0x2029 || n == 0x202F || n == 0x205F
    || n == 0x3000

/-- Without the white space at the front. -/
def trimFront (text : List Char) : List Char :=
  text.dropWhile isBlank

/-- Without the white space at the end. -/
def trimBack (text : List Char) : List Char :=
  (text.reverse.dropWhile isBlank).reverse

/-- Without the white space at either end. -/
def trim (text : List Char) : List Char :=
  trimBack (trimFront text)

/-- A line without the white space at its end. -/
def rstrip (line : String) : String :=
  String.ofList (trimBack line.toList)

/-- A text without the white space at either end. -/
def strip (text : String) : String :=
  String.ofList (trim text.toList)

end Verdicts.Text
