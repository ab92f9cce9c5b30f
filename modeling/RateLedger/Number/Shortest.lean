import RateLedger.Number.Binary64
import RateLedger.Number.Decimal

/-!
# Shortest decimal text of a double

The digits printed are the fewest that read back as the same double and, among those of that
length, the nearest to its value. They are found on decimal grids of one, two, … seventeen digits:
on each the two neighbours of the value are tested against the interval of reals that round to it,
whose ends belong to it when the fraction is even.

The digits stand positionally for values from `10 ^ -4` up to `10 ^ 16`, else with an exponent of
at least two digits; a whole number keeps one zero behind the point.
-/

namespace RateLedger.Number.Shortest

/-- The decimal number `digits * 10 ^ exponent`. -/
structure Scaled where
  digits : Nat
  exponent : Int
  deriving DecidableEq, Repr

/-- The reals that round to a double, in quarters of a unit of `2 ^ -1074`. -/
structure Interval where
  low : Nat
  value : Nat
  high : Nat
  /-- Whether the two ends round to the double too. -/
  closed : Bool

/-- Quarter units in one. -/
def quarters : Nat := 4 * Binary64.one

/-- The interval of a finite double. Above a power of two the next double is twice as far away as
below it, the least normal number excepted. -/
def interval (x : Binary64) : Interval :=
  let gap := twoTo (x.exponent - 1)
  let value := 4 * x.units
  let atPower := x.fraction = 0 ∧ 1 < x.exponent
  ⟨value - (if atPower then gap else 2 * gap), value, value + 2 * gap, x.fraction % 2 == 0⟩

/-- The position of the decimal point: the `p` with `10 ^ (p - 1) ≤ value < 10 ^ p`. -/
def pointPosition (value : Nat) : Int :=
  if quarters ≤ value then (Decimal.digits (value / quarters)).length
  else 1 - ((Decimal.digits ((quarters + value - 1) / value - 1)).length : Nat)

/-- Whether `n` cells of size `cell / scale` lie in the interval. -/
def Interval.has (i : Interval) (cell scale n : Nat) : Bool :=
  if i.closed then i.low * scale ≤ n * cell && n * cell ≤ i.high * scale
  else i.low * scale < n * cell && n * cell < i.high * scale

/-- The number of `count` digits in the interval that is nearest to its value, if there is one. -/
def onGrid? (i : Interval) (point : Int) (count : Nat) : Option Scaled :=
  let exponent := point - count
  let cell := quarters * tenTo exponent.toNat
  let scale := tenTo (-exponent).toNat
  let below := i.value * scale / cell
  let twice := 2 * (i.value * scale % cell)
  match i.has cell scale below, i.has cell scale (below + 1) with
  | true, true =>
    if twice < cell ∨ (twice = cell ∧ below % 2 = 0) then some ⟨below, exponent⟩
    else some ⟨below + 1, exponent⟩
  | true, false => some ⟨below, exponent⟩
  | false, true => some ⟨below + 1, exponent⟩
  | false, false => none

/-- The shortest decimal number that reads back as this positive finite double. -/
def scaled (x : Binary64) : Scaled :=
  let i := interval x
  let point := pointPosition i.value
  let found := (List.range 17).findSome? fun n => onGrid? i point (n + 1)
  match found with
  | some ⟨digits, exponent⟩ =>
    if digits % 10 = 0 then ⟨digits / 10, exponent + 1⟩ else ⟨digits, exponent⟩
  | none => ⟨0, 0⟩

/-- Digits with a decimal point after the first `point` of them, by position. -/
def positional (digits : List Char) (point : Int) : List Char :=
  if point ≤ 0 then '0' :: '.' :: List.replicate (-point).toNat '0' ++ digits
  else if digits.length ≤ point.toNat then
    digits ++ List.replicate (point.toNat - digits.length) '0' ++ ['.', '0']
  else digits.take point.toNat ++ '.' :: digits.drop point.toNat

/-- Digits with the point after the first of them and an exponent. -/
def exponential (digits : List Char) (point : Int) : List Char :=
  let exponent := point - 1
  let mantissa := match digits with
    | first :: second :: rest => first :: '.' :: second :: rest
    | short => short
  let sign := if exponent < 0 then '-' else '+'
  let magnitude := exponent.natAbs
  mantissa ++ 'e' :: sign ::
    (if magnitude < 10 then Decimal.padded 2 magnitude else Decimal.digits magnitude)

/-- The text of the magnitude of a finite double. -/
def magnitude (x : Binary64) : List Char :=
  if x.isZero then ['0', '.', '0']
  else
    let ⟨digits, exponent⟩ := scaled x
    let chars := Decimal.digits digits
    let point := exponent + chars.length
    if -4 < point ∧ point ≤ 16 then positional chars point else exponential chars point

/-- The shortest text of a double. -/
def ofBinary64 (x : Binary64) : String :=
  if x.isNaN then "nan"
  else
    let chars := if x.isFinite then magnitude x else ['i', 'n', 'f']
    String.ofList (if x.isNegative then '-' :: chars else chars)

end RateLedger.Number.Shortest
