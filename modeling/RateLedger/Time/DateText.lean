import RateLedger.Text.Blank
import RateLedger.Text.Digit
import RateLedger.Time.Calendar

/-!
# Dates as a vendor writes them

A date is `YYYY-MM-DD`, and a text with a colon in it is a date, blanks and `HH:MM:SS`. The year has
four digits. The other numbers have two digits when two fit and one otherwise, so a leading zero may
be left out; the first of two digits is one of ASCII, and so is the second wherever a range of
values limits it. A day below ten may follow a space.
-/

namespace RateLedger.Time.DateText

open Text (Digit.value?)

/-- The number at the front of a text, with what follows. -/
abbrev Field := List Char → Option (Nat × List Char)

/-- Two digits, the first of ASCII within a range and the second of any script or, when `limit` is
given, of ASCII and at most the limit. -/
def pair? (low high : Char) (limit : Option Char) : Field
  | a :: b :: rest =>
    if low ≤ a ∧ a ≤ high then
      match limit with
      | some top =>
        if '0' ≤ b ∧ b ≤ top then some ((a.toNat - 48) * 10 + (b.toNat - 48), rest) else none
      | none => (Digit.value? b).map fun d => ((a.toNat - 48) * 10 + d, rest)
    else none
  | _ => none

/-- One digit of any script. -/
def single? : Field
  | c :: rest => (Digit.value? c).map (·, rest)
  | [] => none

/-- One digit of ASCII from one to nine. -/
def nonzero? : Field
  | c :: rest => if '1' ≤ c ∧ c ≤ '9' then some (c.toNat - 48, rest) else none
  | [] => none

/-- A zero followed by a digit of ASCII from one to nine. -/
def zeroPair? : Field
  | '0' :: rest => nonzero? rest
  | _ => none

/-- The first of several ways to read a number that fits. -/
def firstOf (ways : List Field) : Field := fun chars => ways.findSome? (· chars)

/-- Four digits of any script. -/
def year? : Field
  | a :: b :: c :: d :: rest =>
    ([a, b, c, d].mapM Digit.value?).map fun ds => (Text.Digit.number ds, rest)
  | _ => none

/-- A month from 1 to 12. -/
def month? : Field := firstOf [pair? '1' '1' (some '2'), zeroPair?, nonzero?]

/-- A day from 1 to 31. -/
def day? : Field :=
  firstOf [pair? '3' '3' (some '1'), pair? '1' '2' none, zeroPair?, nonzero?, fun
    | ' ' :: rest => nonzero? rest
    | _ => none]

/-- An hour from 0 to 23. -/
def hour? : Field := firstOf [pair? '2' '2' (some '3'), pair? '0' '1' none, single?]

/-- A minute from 0 to 59. -/
def minute? : Field := firstOf [pair? '0' '5' none, single?]

/-- A second from 0 to 61. -/
def second? : Field := firstOf [pair? '6' '6' (some '1'), pair? '0' '5' none, single?]

/-- What follows a character that has to stand at the front. -/
def after? (c : Char) : List Char → Option (List Char)
  | first :: rest => if first = c then some rest else none
  | [] => none

/-- What follows blanks, at least one. -/
def afterBlanks? : List Char → Option (List Char)
  | c :: rest => if Text.Blank.isBlank c then some (rest.dropWhile Text.Blank.isBlank) else none
  | [] => none

/-- A date at the front of a text. -/
def date? (chars : List Char) : Option (Date × List Char) := do
  let (year, rest) ← year? chars
  let (month, rest) ← month? (← after? '-' rest)
  let (day, rest) ← day? (← after? '-' rest)
  pure (⟨year, month, day⟩, rest)

/-- A time of day at the front of a text, in seconds; the sixtieth second of a minute is none. -/
def time? (chars : List Char) : Option (Nat × List Char) := do
  let (hour, rest) ← hour? chars
  let (minute, rest) ← minute? (← after? ':' rest)
  let (second, rest) ← second? (← after? ':' rest)
  if second < 60 then pure (hour * 3600 + minute * 60 + second, rest) else none

/-- The date and the second of the day written by a text. -/
def read? (text : String) : Option (Date × Nat) := do
  let (date, rest) ← date? text.toList
  let (second, rest) ←
    if text.toList.contains ':' then time? (← afterBlanks? rest) else pure (0, rest)
  if rest.isEmpty && date.isValid then pure (date, second) else none

end RateLedger.Time.DateText
