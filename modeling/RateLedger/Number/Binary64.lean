import RateLedger.Number.Power

/-!
# Double-precision numbers by their bits

A number is its 64-bit word: a sign, eleven bits of exponent and fifty-two of fraction. A finite
magnitude is a whole number of units of `2 ^ -1074`, so values are compared and rounded in exact
integer arithmetic. The nearest double to a quotient has the even fraction on a tie, and a
magnitude too large to be finite becomes infinity.

Writing the magnitude as `significand * 2 ^ shift` units with a significand below `2 ^ 53`, its word
is `shift * 2 ^ 52 + significand`, for small and normal numbers alike; a significand that rounds up
to `2 ^ 53` carries into the exponent by itself.
-/

namespace RateLedger

open Number (twoTo tenTo)

/-- A double-precision number, given by its word. -/
structure Binary64 where
  bits : UInt64
  deriving DecidableEq, Repr, Inhabited

namespace Binary64

/-- The number with this word. -/
def ofWord (word : Nat) : Binary64 := ⟨UInt64.ofNat word⟩

/-- The word as a natural number. -/
def word (x : Binary64) : Nat := x.bits.toNat

/-- Whether the sign bit is set. -/
def isNegative (x : Binary64) : Bool := twoTo 63 ≤ x.word

/-- The exponent field. -/
def exponent (x : Binary64) : Nat := x.word / twoTo 52 % twoTo 11

/-- The fraction field. -/
def fraction (x : Binary64) : Nat := x.word % twoTo 52

/-- Whether the number is neither infinite nor not-a-number. -/
def isFinite (x : Binary64) : Bool := x.exponent != 2047

/-- Whether the word stands for no number. -/
def isNaN (x : Binary64) : Bool := x.exponent == 2047 && x.fraction != 0

/-- Whether the number is one of the two zeros. -/
def isZero (x : Binary64) : Bool := x.word % twoTo 63 == 0

/-- Whether the number is greater than zero. -/
def isPositive (x : Binary64) : Bool := !x.isNegative && !x.isZero && !x.isNaN

/-- Whether the number is less than zero. -/
def isBelowZero (x : Binary64) : Bool := x.isNegative && !x.isZero && !x.isNaN

/-- The magnitude of a finite number in units of `2 ^ -1074`. -/
def units (x : Binary64) : Nat :=
  if x.exponent = 0 then x.fraction else (x.fraction + twoTo 52) * twoTo (x.exponent - 1)

/-- Units in one. -/
def one : Nat := twoTo 1074

/-- The magnitude word of infinity. -/
def infinityWord : Nat := 2047 * twoTo 52

/-- The number with this sign and magnitude word. -/
def signed (negative : Bool) (magnitude : Nat) : Binary64 :=
  ofWord (if negative then twoTo 63 + magnitude else magnitude)

/-- Infinity with a sign. -/
def infinity (negative : Bool) : Binary64 := signed negative infinityWord

/-- Not a number, with a sign. -/
def nan (negative : Bool) : Binary64 := signed negative (infinityWord + twoTo 51)

/-- Zero with a sign. -/
def zero (negative : Bool) : Binary64 := signed negative 0

end Binary64

/-- The whole number nearest to a quotient, the even one on a tie. -/
def roundHalfEven (num den : Nat) : Nat :=
  let quotient := num / den
  let twice := 2 * (num % den)
  if twice < den then quotient
  else if den < twice then quotient + 1
  else quotient + quotient % 2

namespace Binary64

/-- The magnitude word nearest to `num / den` units, without regard to overflow. -/
def nearestWord (num den : Nat) : Nat :=
  let shift := (num / den).log2 - 52
  shift * twoTo 52 + roundHalfEven num (den * twoTo shift)

/-- The number nearest to `num / den` units. -/
def ofUnits (negative : Bool) (num den : Nat) : Binary64 :=
  signed negative (min (nearestWord num den) infinityWord)

/-- The number nearest to a quotient. -/
def ofRatio (negative : Bool) (num den : Nat) : Binary64 := ofUnits negative (num * one) den

/-- The number nearest to `digits * 10 ^ exponent`. Powers far outside the range of doubles are
told apart before they are computed. -/
def ofDecimal (negative : Bool) (digits : Nat) (exponent : Int) : Binary64 :=
  if digits = 0 then zero negative
  else if 400 < exponent then infinity negative
  else if exponent < -(400 + digits.log2 + 1 : Nat) then zero negative
  else if 0 ≤ exponent then ofRatio negative (digits * tenTo exponent.toNat) 1
  else ofRatio negative digits (tenTo (-exponent).toNat)

/-- The number nearest to an integer. -/
def ofInt (i : Int) : Binary64 := ofRatio (i < 0) i.natAbs 1

/-- The finite number nearest to an integer, if there is one. -/
def ofInt? (i : Int) : Option Binary64 :=
  if (ofInt i).isFinite then some (ofInt i) else none

/-- A finite number without its fractional part. -/
def truncate (x : Binary64) : Int :=
  if x.isNegative then -(x.units / one : Nat) else (x.units / one : Nat)

/-- The integer equal to a finite number, if it is whole. -/
def toInt? (x : Binary64) : Option Int :=
  if x.isFinite && x.units % one == 0 then some x.truncate else none

theorem word_ofWord {n : Nat} (h : n < twoTo 64) : (ofWord n).word = n := by
  simp only [word, ofWord, UInt64.toNat_ofNat']
  exact Nat.mod_eq_of_lt h

theorem word_lt (x : Binary64) : x.word < twoTo 64 := x.bits.toNat_lt

@[simp] theorem ofWord_word (x : Binary64) : ofWord x.word = x := by
  simp [ofWord, word]

end Binary64

end RateLedger
