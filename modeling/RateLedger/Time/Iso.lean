import RateLedger.Number.Decimal
import RateLedger.Number.Numeral
import RateLedger.Time.DateTime

/-!
# The international form of times

A time is written `YYYY-MM-DDTHH:MM:SS`, then its microseconds in six digits unless they are zero,
then its distance from UTC as `±HH:MM`, with seconds and their fraction only when there are some.
The reader takes any count of digits for a fraction, of which six count, and `Z` for UTC.
-/

namespace RateLedger.Time.Iso

open Number (Decimal.padded)
open Number.Numeral (spanDigits)
open Text (Digit.number)

/-- Hours, minutes and seconds between colons. -/
def clock (secondOfDay : Nat) : List Char :=
  Decimal.padded 2 (secondOfDay / 3600) ++ ':' :: Decimal.padded 2 (secondOfDay / 60 % 60) ++
    ':' :: Decimal.padded 2 (secondOfDay % 60)

/-- Year, month and day between hyphens. -/
def day (date : Date) : List Char :=
  Decimal.padded 4 date.year ++ '-' :: Decimal.padded 2 date.month ++
    '-' :: Decimal.padded 2 date.day

/-- The fraction of a second behind a point, unless it is zero. -/
def fraction (micros : Nat) : List Char :=
  if micros = 0 then [] else '.' :: Decimal.padded 6 micros

/-- The distance from UTC in microseconds. -/
def offset (micros : Int) : List Char :=
  let sign := if micros < 0 then '-' else '+'
  let text := clock (micros.natAbs / 1000000) ++ fraction (micros.natAbs % 1000000)
  sign :: (if micros.natAbs % 60000000 = 0 then text.take 5 else text)

/-- The international form of a clock reading. -/
def ofDateTime (d : DateTime) : String :=
  let distance := match d.offset with
    | some micros => offset micros
    | none => []
  String.ofList (day d.date ++ 'T' :: clock d.secondOfDay ++ fraction d.microsecond ++ distance)

/-- A number of exactly `count` digits at the front, with what follows. -/
def digits? (count : Nat) (chars : List Char) : Option (Nat × List Char) :=
  if (chars.take count).length = count then
    ((chars.take count).mapM Text.Digit.ascii?).map fun ds => (Digit.number ds, chars.drop count)
  else none

/-- What follows a character that has to stand at the front. -/
def drop? (c : Char) : List Char → Option (List Char)
  | first :: rest => if first = c then some rest else none
  | [] => none

/-- Hours and minutes at the front, as seconds. -/
def hoursMinutes? (chars : List Char) : Option (Nat × List Char) := do
  let (hours, rest) ← digits? 2 chars
  let (minutes, rest) ← digits? 2 (← drop? ':' rest)
  pure (hours * 3600 + minutes * 60, rest)

/-- The fraction of a second in microseconds, with what follows. -/
def fraction? : List Char → Option (Nat × List Char)
  | '.' :: rest =>
    match spanDigits Text.Digit.ascii? rest with
    | ([], _) => none
    | (ds, rest) => some (Digit.number ((ds ++ List.replicate 6 0).take 6), rest)
  | chars => some (0, chars)

/-- The distance from UTC that ends a time, in microseconds. -/
def offset? : List Char → Option (Option Int)
  | [] => some none
  | ['Z'] => some (some 0)
  | sign :: rest =>
    if sign = '+' ∨ sign = '-' then do
      let (seconds, rest) ← hoursMinutes? rest
      let micros ← match rest with
        | [] => some (seconds * 1000000)
        | ':' :: rest => do
          let (more, rest) ← digits? 2 rest
          match ← fraction? rest with
          | (micros, []) => some ((seconds + more) * 1000000 + micros)
          | _ => none
        | _ => none
      pure (some (if sign = '-' then -(micros : Int) else micros))
    else none

/-- The clock reading with this international form. -/
def read? (text : String) : Option DateTime := do
  let (year, rest) ← digits? 4 text.toList
  let (month, rest) ← digits? 2 (← drop? '-' rest)
  let (day, rest) ← digits? 2 (← drop? '-' rest)
  let (minutes, rest) ← hoursMinutes? (← drop? 'T' rest)
  let (seconds, rest) ← digits? 2 (← drop? ':' rest)
  let (micros, rest) ← fraction? rest
  let distance ← offset? rest
  let date : Date := ⟨year, month, day⟩
  if date.isValid && minutes < 86400 && seconds < 60 then
    DateTime.ofWall? (DateTime.wallOf date (minutes + seconds) + micros) distance
  else none

end RateLedger.Time.Iso
