/-!
Blank characters and how they are cut from the ends of a text. The class is the White_Space
property of the Unicode character database; core's `Char.isWhitespace` knows its ASCII part only.
-/

namespace Entitlement.Text

/-- The White_Space property. -/
def isBlank (c : Char) : Bool :=
  let n := c.toNat
  (9 ≤ n && n ≤ 13) || n == 0x20 || n == 0x85 || n == 0xA0 || n == 0x1680 ||
    (0x2000 ≤ n && n ≤ 0x200A) || n == 0x2028 || n == 0x2029 || n == 0x202F || n == 0x205F ||
    n == 0x3000

def dropBlanks (cs : List Char) : List Char :=
  cs.dropWhile isBlank

def dropBlanksEnd (cs : List Char) : List Char :=
  (cs.reverse.dropWhile isBlank).reverse

/-- Cuts the blanks from both ends. -/
def trim (s : String) : String :=
  String.ofList (dropBlanksEnd (dropBlanks s.toList))

end Entitlement.Text
