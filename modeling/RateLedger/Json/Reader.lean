import RateLedger.Json.Basic
import RateLedger.Number.Numeral

/-!
# Reading JSON

The reader takes one value with blanks around it and nothing after it. Beside the standard grammar
it knows the words for the doubles that are not finite. A whole number may have 4300 digits; a
number with a point or an exponent is the nearest double. Texts hold no raw control characters, and
an escape for half a surrogate pair on its own stands for that half. Of fields with the same name
the last one counts. Lists and objects may be nested up to a limit, beyond which nothing is read on.

Each function returns what it read and the characters after it. The functions on nested values
count down from twice the length of the text: of two counts one takes a character or is the last.
-/

namespace RateLedger.Json.Reader

open Number.Numeral (spanDigits)
open Text (Half Wide)

/-- Why a text is not read as a value. -/
inductive Fault
  | malformed
  /-- Lists and objects are nested beyond the limit. -/
  | tooDeep
  deriving DecidableEq, Repr

/-- The characters after blanks. -/
def skipBlanks (chars : List Char) : List Char :=
  chars.dropWhile fun c => c == ' ' || c == '\t' || c == '\n' || c == '\r'

/-- The code unit of a four-digit escape. -/
def unit? (a b c d : Char) : Option Nat := Text.Hex.number? [a, b, c, d]

/-- The part of a text that is read. -/
structure Begun where
  /-- The halves, the last one first, each behind the characters in front of it. -/
  halves : List (String × Half)
  /-- The characters behind the halves, reversed. -/
  chars : List Char

namespace Begun

/-- Nothing is read yet. -/
def nothing : Begun := ⟨[], []⟩

/-- One more character is read. -/
def add (begun : Begun) (c : Char) : Begun := { begun with chars := c :: begun.chars }

/-- The code of one more character or half is read. -/
def addCode (begun : Begun) (code : Nat) : Begun :=
  match Half.ofCode? code with
  | some half => ⟨(String.ofList begun.chars.reverse, half) :: begun.halves, []⟩
  | none => begun.add (Char.ofNat code)

/-- The text that was read. -/
def text (begun : Begun) : Wide :=
  begun.halves.foldl (fun behind (before, half) => .broken before half behind)
    (.plain (String.ofList begun.chars.reverse))

end Begun

/-- The rest of a text behind its opening quote. -/
def text? (begun : Begun) : List Char → Option (Wide × List Char)
  | '"' :: rest => some (begun.text, rest)
  | '\\' :: 'u' :: a :: b :: c :: d :: '\\' :: 'u' :: e :: f :: g :: h :: rest =>
    match unit? a b c d, unit? e f g h with
    | some high, some low =>
      if 0xD800 ≤ high ∧ high < 0xDC00 ∧ 0xDC00 ≤ low ∧ low < 0xE000 then
        text? (begun.addCode (0x10000 + (high - 0xD800) * 0x400 + (low - 0xDC00))) rest
      else
        text? (begun.addCode high) ('\\' :: 'u' :: e :: f :: g :: h :: rest)
    | some high, none => text? (begun.addCode high) ('\\' :: 'u' :: e :: f :: g :: h :: rest)
    | none, _ => none
  | '\\' :: 'u' :: a :: b :: c :: d :: rest =>
    match unit? a b c d with
    | some code => text? (begun.addCode code) rest
    | none => none
  | '\\' :: c :: rest =>
    match [('"', '"'), ('\\', '\\'), ('/', '/'), ('b', '\x08'), ('f', '\x0c'), ('n', '\n'),
        ('r', '\r'), ('t', '\t')].lookup c with
    | some plain => text? (begun.add plain) rest
    | none => none
  | c :: rest => if c.toNat < 32 ∨ c = '\\' then none else text? (begun.add c) rest
  | [] => none

/-- The digits after a point or an exponent mark, at least one. -/
def someDigits? (chars : List Char) : Option (List Nat × List Char) :=
  match spanDigits Text.Digit.ascii? chars with
  | ([], _) => none
  | found => some found

/-- The fraction of a number, if one follows. -/
def fraction? : List Char → Option (List Nat × List Char)
  | '.' :: rest => someDigits? rest
  | _ => none

/-- The exponent of a number, if one follows. -/
def exponent? : List Char → Option (Int × List Char)
  | e :: rest =>
    if e = 'e' ∨ e = 'E' then
      let (negative, digits) := Number.Numeral.sign rest
      (someDigits? digits).map fun (ds, after) =>
        (if negative then -(Text.Digit.number ds : Int) else Text.Digit.number ds, after)
    else none
  | [] => none

/-- The most digits of a whole number. -/
def maxDigits : Nat := 4300

/-- A number, its sign being read already. -/
def number? (negative : Bool) (chars : List Char) : Option (Json × List Char) :=
  let whole := match chars with
    | '0' :: rest => some ([0], rest)
    | _ => someDigits? chars
  whole.bind fun (digits, rest) =>
    let (part, rest, pointed) := match fraction? rest with
      | some (part, rest) => (part, rest, true)
      | none => ([], rest, false)
    let (exponent, rest, scaled) := match exponent? rest with
      | some (exponent, rest) => (exponent, rest, true)
      | none => (0, rest, false)
    if pointed || scaled then
      some (.float (.ofDecimal negative (Text.Digit.number (digits ++ part))
        (exponent - part.length)), rest)
    else if maxDigits < digits.length then none
    else
      let n : Int := Text.Digit.number digits
      some (.int (if negative then -n else n), rest)

/-- The characters after a word at the front. -/
def dropWord? (word : String) (chars : List Char) : Option (List Char) :=
  if word.toList.isPrefixOf chars then some (chars.drop word.length) else none

/-- The words that stand for values. -/
def words : List (String × Json) :=
  [("null", .null), ("true", .bool true), ("false", .bool false), ("NaN", .float (.nan false)),
    ("Infinity", .float (.infinity false)), ("-Infinity", .float (.infinity true))]

/-- A value that holds no other one. -/
def scalar? (chars : List Char) : Option (Json × List Char) :=
  match words.findSome? fun (word, value) => (dropWord? word chars).map (value, ·) with
  | some found => some found
  | none =>
    match chars with
    | '"' :: rest => (text? .nothing rest).map fun (text, after) => (.str text, after)
    | '-' :: rest => number? true rest
    | _ => number? false chars

/-- What was read, if anything was. -/
def orMalformed : Option α → Except Fault α
  | some found => .ok found
  | none => .error .malformed

mutual

/-- A value at the front of a text; `nesting` says how deep lists and objects may go on. -/
def value? : (nesting fuel : Nat) → List Char → Except Fault (Json × List Char)
  | _, 0, _ => .error .malformed
  | nesting, fuel + 1, '[' :: rest =>
    if nesting = 0 then .error .tooDeep
    else match skipBlanks rest with
      | ']' :: after => .ok (.arr [], after)
      | items => items? (nesting - 1) fuel [] items
  | nesting, fuel + 1, '\x7b' :: rest =>
    if nesting = 0 then .error .tooDeep
    else match skipBlanks rest with
      | '\x7d' :: after => .ok (.obj [], after)
      | fields => fields? (nesting - 1) fuel [] fields
  | _, _ + 1, chars => orMalformed (scalar? chars)

/-- The items of a list up to its end; `read` holds those before, reversed. -/
def items? : (nesting fuel : Nat) → (read : List Json) → List Char →
    Except Fault (Json × List Char)
  | _, 0, _, _ => .error .malformed
  | nesting, fuel + 1, read, chars => do
    let (item, rest) ← value? nesting fuel chars
    match skipBlanks rest with
    | ',' :: more => items? nesting fuel (item :: read) (skipBlanks more)
    | ']' :: after => .ok (.arr (item :: read).reverse, after)
    | _ => .error .malformed

/-- The fields of an object up to its end; `read` holds those before, reversed. -/
def fields? : (nesting fuel : Nat) → (read : List (Wide × Json)) → List Char →
    Except Fault (Json × List Char)
  | _, 0, _, _ => .error .malformed
  | nesting, fuel + 1, read, '"' :: chars => do
    let (name, rest) ← orMalformed (text? .nothing chars)
    match skipBlanks rest with
    | ':' :: rest =>
      let (value, rest) ← value? nesting fuel (skipBlanks rest)
      match skipBlanks rest with
      | ',' :: more => fields? nesting fuel ((name, value) :: read) (skipBlanks more)
      | '\x7d' :: after => .ok (ofFields ((name, value) :: read).reverse, after)
      | _ => .error .malformed
    | _ => .error .malformed
  | _, _ + 1, _, _ => .error .malformed

end

end Reader

/-- The value that a text writes, if lists and objects are nested `nesting` deep at most. -/
def read (nesting : Nat) (text : String) : Except Reader.Fault Json :=
  let chars := Reader.skipBlanks text.toList
  match Reader.value? nesting (2 * chars.length) chars with
  | .ok (value, rest) =>
    if (Reader.skipBlanks rest).isEmpty then .ok value else .error .malformed
  | .error fault => .error fault

/-- The value that a text writes, however deep it is nested. -/
def read? (text : String) : Option Json := (read text.length text).toOption

end RateLedger.Json
