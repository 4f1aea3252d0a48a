/-!
# Blank characters

`isBlank` holds of the characters with the Unicode property `White_Space`; `trim` removes them
from both ends of a text.
-/

namespace Ecoa.Text

def isBlank (c : Char) : Bool :=
  let n := c.toNat
  (0x09 ≤ n && n ≤ 0x0D) || n == 0x20 || n == 0x85 || n == 0xA0 || n == 0x1680 ||
    (0x2000 ≤ n && n ≤ 0x200A) || n == 0x2028 || n == 0x2029 || n == 0x202F || n == 0x205F ||
    n == 0x3000

def trimEnds (cs : List Char) : List Char :=
  ((cs.dropWhile isBlank).reverse.dropWhile isBlank).reverse

def trim (s : String) : String := .ofList (trimEnds s.toList)

theorem toList_trim (s : String) : (trim s).toList = trimEnds s.toList := String.toList_ofList

example : trim "\t a b\u3000\n" = "a b" := by decide

end Ecoa.Text
