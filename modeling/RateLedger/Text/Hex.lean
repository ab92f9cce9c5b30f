/-!
# Hexadecimal digits

A number is written with as many lower-case hexadecimal digits as asked for, and read from digits in
either case.
-/

namespace RateLedger.Text.Hex

/-- The digit of a number below sixteen. -/
def digit (n : Nat) : Char := Char.ofNat (if n < 10 then 48 + n else 87 + n)

/-- The value of a lower-case or capital hexadecimal digit. -/
def value? (c : Char) : Option Nat :=
  let n := c.toNat
  if 48 ≤ n ∧ n ≤ 57 then some (n - 48)
  else if 97 ≤ n ∧ n ≤ 102 then some (n - 87)
  else if 65 ≤ n ∧ n ≤ 70 then some (n - 55)
  else none

/-- The last `width` hexadecimal digits of a number. -/
def padded : (width : Nat) → Nat → List Char
  | 0, _ => []
  | width + 1, n => padded width (n / 16) ++ [digit (n % 16)]

/-- The number written by hexadecimal digits, if all characters are such digits. -/
def number? (chars : List Char) : Option Nat :=
  chars.foldlM (fun n c => (value? c).map (n * 16 + ·)) 0

end RateLedger.Text.Hex
