import RateLedger.Number.Binary64
import RateLedger.Text.Blank
import RateLedger.Text.Digit

/-!
# Reading numbers from text

A decimal numeral is a sign, digits with at most one point among them and an optional exponent; the
words for infinity and not-a-number count as numerals too, in any case. The liberal reading takes
the digits of every script and single underscores between digits. The plain reading takes the
digits of ASCII, and single underscores inside a text without blanks around it.

A whole number may have a sign, leading zeros, single underscores inside and a tail of a point and
zeros. Underscores between leading zeros do not count.
-/

namespace RateLedger.Number.Numeral

open Text (Digit.number)
open Text.Blank (trimBoth isWhite)

/-- The digits at the front of a text, with what follows them. -/
def spanDigits (value? : Char → Option Nat) : List Char → List Nat × List Char
  | [] => ([], [])
  | c :: rest =>
    match value? c with
    | some d =>
      let (digits, after) := spanDigits value? rest
      (d :: digits, after)
    | none => ([], c :: rest)

/-- The sign at the front of a text: whether it is a minus, and what follows it. -/
def sign : List Char → Bool × List Char
  | '-' :: rest => (true, rest)
  | '+' :: rest => (false, rest)
  | chars => (false, chars)

/-- The exponent at the end of a numeral. -/
def exponent? (value? : Char → Option Nat) : List Char → Option Int
  | [] => some 0
  | e :: rest =>
    if e = 'e' ∨ e = 'E' then
      let (negative, digits) := sign rest
      match spanDigits value? digits with
      | ([], _) => none
      | (ds, []) => some (if negative then -(Digit.number ds : Int) else Digit.number ds)
      | _ => none
    else none

/-- The value of a numeral without its sign, read with the given digits. -/
def unsigned? (value? : Char → Option Nat) (negative : Bool) (chars : List Char) :
    Option Binary64 :=
  let word := chars.map Char.toLower
  if word = "inf".toList ∨ word = "infinity".toList then some (.infinity negative)
  else if word = "nan".toList then some (.nan negative)
  else
    let (whole, rest) := spanDigits value? chars
    let (part, rest) := match rest with
      | '.' :: rest => spanDigits value? rest
      | rest => ([], rest)
    if whole.isEmpty && part.isEmpty then none
    else (exponent? value? rest).map fun exponent =>
      .ofDecimal negative (Digit.number (whole ++ part)) (exponent - part.length)

/-- The value of a numeral, read with the given digits. -/
def signed? (value? : Char → Option Nat) (chars : List Char) : Option Binary64 :=
  let (negative, rest) := sign chars
  unsigned? value? negative rest

/-- The text without its underscores, if each stands between two digits. -/
def joinDigits (isDigit : Char → Bool) (afterDigit : Bool) : List Char → Option (List Char)
  | [] => some []
  | '_' :: c :: rest =>
    if afterDigit && isDigit c then (joinDigits isDigit true rest).map (c :: ·) else none
  | ['_'] => none
  | c :: rest => (joinDigits isDigit (isDigit c) rest).map (c :: ·)

/-- The liberal reading of a double. -/
def liberal? (text : String) : Option Binary64 :=
  (joinDigits Text.Digit.isDigit false (trimBoth isWhite text.toList)).bind
    (signed? Text.Digit.value?)

/-- The text without its underscores, if no two stand together and none ends the text. -/
def dropUnderscores? (chars : List Char) : Option (List Char) :=
  if chars.getLast? = some '_' || (chars.zip chars.tail).any (· == ('_', '_')) then none
  else some (chars.filter (· != '_'))

/-- The plain reading of a double. -/
def plain? (text : String) : Option Binary64 :=
  match signed? Text.Digit.ascii? (trimBoth isWhite text.toList) with
  | some x => some x
  | none =>
    if text.toList.contains '_' && text.toList.head? != some '_' then
      (dropUnderscores? text.toList).bind (signed? Text.Digit.ascii?)
    else none

/-- The greatest length in bytes of a text that is read as a whole number. -/
def maxWholeLength : Nat := 4300

/-- Why a text is no whole number. -/
inductive WholeError
  | malformed
  | tooLong
  deriving DecidableEq, Repr

/-- The text without a point and the zeros after it, if they end it. -/
def dropPointZeros (chars : List Char) : List Char :=
  let body := chars.takeWhile (· != '.')
  if (chars.drop (body.length + 1)).all (· == '0') then body else chars

/-- The digits of a text of ASCII digits, at least one. -/
def digits? (chars : List Char) : Option (List Nat) :=
  if chars.isEmpty then none else chars.mapM Text.Digit.ascii?

/-- The digits of a whole number without its sign. After a minus sign leading zeros are digits like
others. -/
def wholeDigits? (negative : Bool) (chars : List Char) : Option (List Nat) :=
  let body := dropPointZeros chars
  if negative then (dropUnderscores? body).bind digits?
  else match body with
    | '_' :: _ => none
    | '0' :: _ =>
      let rest := body.dropWhile fun c => c == '0' || c == '_'
      if rest.isEmpty then if body.getLast? = some '0' then some [0] else none
      else (dropUnderscores? rest).bind digits?
    | _ => (dropUnderscores? body).bind digits?

/-- The integer written by a text. -/
def whole (text : String) : Except WholeError Int :=
  let chars := trimBoth isWhite text.toList
  if maxWholeLength < (String.ofList chars).utf8ByteSize then .error .tooLong
  else
    let (negative, rest) := sign chars
    match wholeDigits? negative rest with
    | some ds => .ok (if negative then -(Digit.number ds : Int) else Digit.number ds)
    | none => .error .malformed

end RateLedger.Number.Numeral
