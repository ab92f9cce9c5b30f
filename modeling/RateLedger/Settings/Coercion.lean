import RateLedger.Bytes
import RateLedger.Files.Path
import RateLedger.Json.Basic
import RateLedger.Number.Numeral
import RateLedger.Problem

/-!
# Reading a setting

A setting may be given as a value of its own kind or as one that means it: a number as a text, a
whole number as a double without a fraction or a truth value, a truth value as a word or as zero or
one. A text has to be a text; one with halves of surrogate pairs in it is none.
-/

namespace RateLedger.Settings

/-- Reads a text. -/
def readText : Json → Except Cause String
  | .str (.plain text) => .ok text
  | _ => .error .stringType

/-- The whole number that a double is, if it lies strictly between the limits of a signed word. -/
def wholeOf (x : Binary64) : Except Cause Int :=
  if !x.isFinite then .error .finiteNumber
  else match x.toInt? with
    | none => .error .intFromFloat
    | some i =>
      if Bytes.fitsSigned i ∧ Bytes.fitsSigned (i - 1) then .ok i else .error .intParsingSize

/-- Reads a whole number. -/
def readInt : Json → Except Cause Int
  | .int value => .ok value
  | .bool value => .ok value.toInt
  | .float x => wholeOf x
  | .str (.plain text) =>
    match Number.Numeral.whole text with
    | .ok value => .ok value
    | .error .malformed => .error .intParsing
    | .error .tooLong => .error .intParsingSize
  | _ => .error .intType

/-- Reads a whole number that is not below zero. -/
def readCount (value : Json) : Except Cause Nat := do
  let number ← readInt value
  if number < 0 then .error (.refused "must be >= 0") else .ok number.toNat

/-- Reads a double. -/
def readFloat : Json → Except Cause Binary64
  | .float x => .ok x
  | .bool value => .ok (.ofInt value.toInt)
  | .int value =>
    match Binary64.ofInt? value with
    | some x => .ok x
    | none => .error .floatType
  | .str (.plain text) =>
    match Number.Numeral.plain? text with
    | some x => .ok x
    | none => .error .floatParsing
  | _ => .error .floatType

/-- The words for true. -/
def yesWords : List String := ["true", "t", "yes", "y", "on", "1"]

/-- The words for false. -/
def noWords : List String := ["false", "f", "no", "n", "off", "0"]

/-- The truth value of a number. -/
def truthOf (value : Int) : Except Cause Bool :=
  if value = 0 then .ok false else if value = 1 then .ok true else .error .boolParsing

/-- Reads a truth value. -/
def readBool : Json → Except Cause Bool
  | .bool value => .ok value
  | .int value => if Bytes.fitsSigned value then truthOf value else .error .boolType
  | .float x =>
    match wholeOf x with
    | .ok value => truthOf value
    | .error _ => .error .boolType
  | .str (.plain text) =>
    if yesWords.contains text.toLower then .ok true
    else if noWords.contains text.toLower then .ok false
    else .error .boolParsing
  | _ => .error .boolType

/-- Reads a path. -/
def readPath : Json → Except Cause Files.Path
  | .str (.plain text) => .ok (.ofText text)
  | _ => .error .pathType

end RateLedger.Settings
