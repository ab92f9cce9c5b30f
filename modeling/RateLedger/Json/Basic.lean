import RateLedger.Number.Shortest
import RateLedger.Text.Quoted

/-!
# JSON values

Whole numbers and doubles are different values, texts may hold halves of surrogate pairs, and the
fields of an object keep the order in which their names first came up. A value is written either as
JSON, without spaces, or as a phrase for messages, where texts are quoted, the constants are words
and a text on its own stands as it is.
-/

namespace RateLedger

open Text (Wide)

/-- A JSON value. -/
inductive Json
  | null
  | bool (value : Bool)
  | int (value : Int)
  | float (value : Binary64)
  | str (text : Wide)
  | arr (items : List Json)
  | obj (fields : List (Wide × Json))
  deriving Repr, Inhabited

namespace Json

/-- The value of a field, for an object that has it. -/
def field? (name : String) : Json → Option Json
  | .obj fields => fields.lookup (.plain name)
  | _ => none

/-- The value of a field, null when there is none. -/
def get (value : Json) (name : String) : Json := (value.field? name).getD .null

/-- The text of a value that is one, without halves. -/
def text? : Json → Option String
  | .str text => text.plain?
  | _ => none

/-- The number of a value that is a whole one. -/
def int? : Json → Option Int
  | .int value => some value
  | _ => none

/-- The items of a list; other values have none. -/
def items : Json → List Json
  | .arr items => items
  | _ => []

/-- The fields of an object; other values have none. -/
def fields : Json → List (Wide × Json)
  | .obj fields => fields
  | _ => []

/-- The fields with one more: a name that is there already takes the new value in its place. -/
def putField (name : Wide) (value : Json) : List (Wide × Json) → List (Wide × Json)
  | [] => [(name, value)]
  | (other, old) :: rest =>
    if other = name then (name, value) :: rest else (other, old) :: putField name value rest

/-- The object with these fields, of which the last of a name counts. -/
def ofFields (fields : List (Wide × Json)) : Json :=
  .obj (fields.foldl (fun found field => putField field.1 field.2 found) [])

/-- Whether a value is null. -/
def isNull : Json → Bool
  | .null => true
  | _ => false

/-- Whether a value is nothing: null, false, a zero, or an empty text, list or object. -/
def isEmpty : Json → Bool
  | .null => true
  | .bool value => !value
  | .int value => value == 0
  | .float value => value.isZero
  | .str text => text == ""
  | .arr items => items.isEmpty
  | .obj fields => fields.isEmpty

/-- A character inside a JSON text. -/
def escape (c : Char) : List Char :=
  if c = '"' ∨ c = '\\' then ['\\', c]
  else if c.toNat < 32 ∨ c.toNat = 127 then '\\' :: 'u' :: Text.Hex.padded 4 c.toNat
  else [c]

/-- A text in double quotes. -/
def quote (text : Wide) : String :=
  String.ofList ('"' :: text.spell escape Text.Half.escape ++ ['"'])

/-- The JSON text of a double. -/
def ofBinary64 (x : Binary64) : String :=
  if x.isNaN then "NaN"
  else if x.isFinite then Number.Shortest.ofBinary64 x
  else if x.isNegative then "-Infinity" else "Infinity"

mutual

/-- The value as JSON, behind the text written so far. -/
def writeOnto (done : String) : Json → String
  | .null => done ++ "null"
  | .bool value => done ++ (if value then "true" else "false")
  | .int value => done ++ Number.Decimal.ofInt value
  | .float value => done ++ ofBinary64 value
  | .str text => done ++ quote text
  | .arr items => (writeItems (done.push '[') true items).push ']'
  | .obj fields => (writeFields (done.push '\x7b') true fields).push '\x7d'

/-- The items of a list with commas between them; `first` says that none came before. -/
def writeItems (done : String) (first : Bool) : List Json → String
  | [] => done
  | item :: rest => writeItems (writeOnto (if first then done else done.push ',') item) false rest

/-- The fields of an object with commas between them. -/
def writeFields (done : String) (first : Bool) : List (Wide × Json) → String
  | [] => done
  | (name, value) :: rest =>
    let before := if first then done else done.push ','
    writeFields (writeOnto ((before ++ quote name).push ':') value) false rest

end

/-- The value as JSON. -/
def write (value : Json) : String := writeOnto "" value

mutual

/-- The phrase for a value inside another one. -/
def inner : Json → String
  | .null => "None"
  | .bool value => if value then "True" else "False"
  | .int value => Number.Decimal.ofInt value
  | .float value => Number.Shortest.ofBinary64 value
  | .str text => Text.Quoted.ofText text
  | .arr items => "[" ++ String.intercalate ", " (innerItems items) ++ "]"
  | .obj fields => "\x7b" ++ String.intercalate ", " (innerFields fields) ++ "\x7d"

/-- The phrases for the items of a list. -/
def innerItems : List Json → List String
  | [] => []
  | item :: rest => inner item :: innerItems rest

/-- The phrases for the fields of an object. -/
def innerFields : List (Wide × Json) → List String
  | [] => []
  | (name, value) :: rest =>
    (Text.Quoted.ofText name ++ ": " ++ inner value) :: innerFields rest

end

/-- The phrase for a value in a message. -/
def phrase : Json → Wide
  | .str text => text
  | value => inner value

end Json

end RateLedger
