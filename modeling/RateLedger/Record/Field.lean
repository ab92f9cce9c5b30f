import RateLedger.Number.Binary64
import RateLedger.Text.Wide

/-!
# Fields of a record

A record is a row of fields: unsigned and signed words of eight bytes, doubles, and texts and byte
strings behind the word of their length. A field is written behind what is written already; a number
that does not fit into its word and a text without a form in UTF-8 are refused and leave that as it
is. A field of a known kind is read from the front of what is left. A read that fails leaves what it
had taken from the front taken: the length stays read when the bytes behind it are refused, and so
do bytes that are no text.
-/

namespace RateLedger.Record

open Text (Flaw Wide)

/-- The greatest length of a text or byte string that is read. -/
def maxLength : Nat := 4000000

/-- Why bytes are no record. -/
inductive Fault
  /-- A length exceeds the greatest one. -/
  | tooLong (length : Nat)
  /-- The bytes end before the ones wanted. -/
  | tooShort (wanted left : Nat)
  /-- A length exceeds the bytes left. -/
  | badLength (length left : Nat)
  | notText
  /-- Bytes follow the record. -/
  | trailing (left : Nat)
  /-- The second lies outside the years 1 to 9999. -/
  | badTime (seconds : Int)
  /-- The values make no observation. -/
  | badValues
  deriving DecidableEq, Repr

/-- What is said about bytes that are no record. -/
def Fault.message : Fault → String
  | .tooLong length =>
    "too large read: " ++ decimal length ++ " bytes (limit " ++ decimal maxLength ++ ")"
  | .tooShort wanted left =>
    "unexpected end of data: wanted " ++ decimal wanted ++ " bytes, " ++ decimal left ++ " left"
  | .badLength length left =>
    "length prefix " ++ decimal length ++ " exceeds remaining " ++ decimal left ++ " bytes"
  | .notText => "string field is not valid utf-8"
  | .trailing left => decimal left ++ " trailing bytes after record"
  | .badTime seconds => "timestamp " ++ decimal seconds ++ " out of range"
  | .badValues => "decoded record is invalid: 1 error(s)"
where
  /-- A number in a message. -/
  decimal (n : Int) : String := Number.Decimal.ofInt n

/-- A field with its value. -/
inductive Field
  | unsigned (value : Int)
  | signed (value : Int)
  | double (value : Binary64)
  | text (value : Wide)
  | bytes (value : Bytes)
  deriving DecidableEq, Repr

/-- A byte string behind the word of its length. -/
def sized (bytes : Bytes) : Bytes := Bytes.word bytes.length ++ bytes

/-- Why a field is not written. -/
inductive Misfit
  /-- A number does not fit into its word. -/
  | number
  /-- A text has no form in UTF-8. -/
  | text (flaw : Flaw)
  deriving DecidableEq, Repr

/-- A byte string behind the word of its length, into which the length has to fit. -/
def trySized (bytes : Bytes) : Except Misfit Bytes :=
  if Bytes.fitsUnsigned bytes.length then .ok (sized bytes) else .error .number

/-- The written form of a field. -/
def Field.form : Field → Except Misfit Bytes
  | .unsigned value =>
    if Bytes.fitsUnsigned value then .ok (Bytes.word value.toNat) else .error .number
  | .signed value =>
    if Bytes.fitsSigned value then .ok (Bytes.signedWord value) else .error .number
  | .double value => .ok (Bytes.word value.word)
  | .text value =>
    match value.utf8 with
    | .ok content => trySized content
    | .error flaw => .error (.text flaw)
  | .bytes value => trySized value

/-- A writing step: what is written already stays also when it fails. -/
abbrev Writing := ExceptT Misfit (StateM Bytes)

/-- Writes a field behind what is written already. -/
def Field.write (field : Field) : Writing Unit :=
  match field.form with
  | .ok form => modify (· ++ form)
  | .error misfit => throw misfit

/-- A reading step: what it takes from the front stays taken also when it fails. -/
abbrev Reading := ExceptT Fault (StateM Bytes)

namespace Reading

/-- The next `count` bytes. -/
def take (count : Nat) : Reading Bytes := do
  let left ← get
  if left.length < count then throw (.tooShort count left.length)
  else
    set (left.drop count)
    return left.take count

/-- An unsigned word. -/
def unsigned : Reading Nat := Bytes.toNat <$> take 8

/-- A signed word. -/
def signed : Reading Int := Bytes.toInt <$> take 8

/-- A double. -/
def double : Reading Binary64 := (fun bytes => .ofWord (Bytes.toNat bytes)) <$> take 8

/-- A byte string behind its length. -/
def bytes : Reading Bytes := do
  let length ← unsigned
  let left ← get
  if maxLength < length then throw (.tooLong length)
  else if left.length < length then throw (.badLength length left.length)
  else take length

/-- A text behind its length. -/
def text : Reading String := do
  match Bytes.toText? (← bytes) with
  | some value => return value
  | none => throw .notText

end Reading

/-- What kind of value a field holds. -/
inductive Kind
  | unsigned
  | signed
  | double
  | text
  | bytes
  deriving DecidableEq, Repr

/-- The kind of a field. -/
def Field.kind : Field → Kind
  | .unsigned _ => .unsigned
  | .signed _ => .signed
  | .double _ => .double
  | .text _ => .text
  | .bytes _ => .bytes

/-- A field of a kind. -/
def Kind.read : Kind → Reading Field
  | .unsigned => (fun value : Nat => .unsigned value) <$> Reading.unsigned
  | .signed => .signed <$> Reading.signed
  | .double => .double <$> Reading.double
  | .text => (fun value : String => .text value) <$> Reading.text
  | .bytes => .bytes <$> Reading.bytes

end RateLedger.Record
