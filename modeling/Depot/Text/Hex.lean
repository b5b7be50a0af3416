/-!
This module contains hexadecimal numerals and the hexadecimal form of bytes.
-/

namespace Depot.Text

def hexDigit (n : Nat) : Char :=
  if n < 10 then Char.ofNat (0x30 + n) else Char.ofNat (0x57 + n)

/-- The last `width` hexadecimal digits of `n`. -/
def hexPadded : (width n : Nat) → List Char
  | 0, _ => []
  | width + 1, n => hexPadded width (n / 16) ++ [hexDigit (n % 16)]

theorem length_hexPadded (width n : Nat) : (hexPadded width n).length = width := by
  induction width generalizing n with
  | zero => rfl
  | succ width ih => simp [hexPadded, ih]

/-- The hexadecimal numeral of `n`, without leading zeros. -/
def hexNumeral (n : Nat) : String :=
  String.ofList (Nat.toDigits 16 n)

def hexBytes (bytes : ByteArray) : String :=
  String.ofList (bytes.toList.flatMap fun b => hexPadded 2 b.toNat)

end Depot.Text
