/-!
# Decimal digits of every script

Unicode gives each script its own ten digits, and every such ten stand side by side from zero to
nine. The table lists the zeros; the value of a digit is its distance from the zero before it.
-/

namespace RateLedger.Text.Digit

/-- The code points of the characters that are a zero. -/
def zeros : List Nat := [
  48, 1632, 1776, 1984, 2406, 2534, 2662, 2790, 2918, 3046, 3174, 3302, 3430, 3558, 3664, 3792,
  3872, 4160, 4240, 6112, 6160, 6470, 6608, 6784, 6800, 6992, 7088, 7232, 7248, 42528, 43216,
  43264, 43472, 43504, 43600, 44016, 65296, 66720, 68912, 69734, 69872, 69942, 70096, 70384,
  70736, 70864, 71248, 71360, 71472, 71904, 72016, 72784, 73040, 73120, 92768, 92864, 93008,
  120782, 120792, 120802, 120812, 120822, 123200, 123632, 125264, 130032
]

/-- The value of a decimal digit of any script. -/
def value? (c : Char) : Option Nat :=
  (zeros.find? fun start => start ≤ c.toNat && c.toNat < start + 10).map (c.toNat - ·)

/-- Whether the character is a decimal digit of any script. -/
def isDigit (c : Char) : Bool := (value? c).isSome

/-- The value of a digit of ASCII. -/
def ascii? (c : Char) : Option Nat := if c.isDigit then some (c.toNat - '0'.toNat) else none

/-- The number written by digits, the highest first. -/
def number (digits : List Nat) : Nat := digits.foldl (fun n d => n * 10 + d) 0

theorem number_append_singleton (digits : List Nat) (d : Nat) :
    number (digits ++ [d]) = number digits * 10 + d := by
  simp [number]

end RateLedger.Text.Digit
