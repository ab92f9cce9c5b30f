/-!
# Decimal digits of whole numbers

Numbers are printed in base ten without leading zeros, or with a fixed count of digits.
-/

namespace RateLedger.Number.Decimal

/-- The decimal digits of a natural number, at least one. -/
def digits (n : Nat) : List Char := Nat.toDigits 10 n

/-- The last `width` decimal digits of a number. -/
def padded : (width : Nat) → Nat → List Char
  | 0, _ => []
  | width + 1, n => padded width (n / 10) ++ [Char.ofNat (48 + n % 10)]

/-- The decimal text of a natural number. -/
def ofNat (n : Nat) : String := String.ofList (digits n)

/-- The decimal text of an integer, with a minus sign when it is negative. -/
def ofInt (i : Int) : String :=
  String.ofList (if i < 0 then '-' :: digits i.natAbs else digits i.natAbs)

@[simp] theorem length_padded (width n : Nat) : (padded width n).length = width := by
  induction width generalizing n with
  | zero => rfl
  | succ width ih => simp [padded, ih]

end RateLedger.Number.Decimal
