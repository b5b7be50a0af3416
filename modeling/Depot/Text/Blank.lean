import Depot.Text.Basic

/-!
This module contains the blank characters and the removal of blanks around a text.
-/

namespace Depot.Text

def isBlank (c : Char) : Bool :=
  let n := c.toNat
  (0x09 ≤ n && n ≤ 0x0d) || (0x1c ≤ n && n ≤ 0x20) || n == 0x85 || n == 0xa0 || n == 0x1680
    || (0x2000 ≤ n && n ≤ 0x200a) || n == 0x2028 || n == 0x2029 || n == 0x202f || n == 0x205f
    || n == 0x3000

def strip (s : String) : String :=
  String.ofList (trim isBlank s.toList)

end Depot.Text
