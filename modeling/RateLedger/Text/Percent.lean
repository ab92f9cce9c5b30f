import RateLedger.Bytes
import RateLedger.Text.Hex

/-!
# Percent escapes

In the path of an address a percent sign and two hexadecimal digits stand for a byte, and all other
characters for the bytes of their UTF-8 form. A percent sign without digits behind it stands for
itself. Bytes that are no UTF-8 form become replacement characters, one for each longest run that
starts a form.
-/

namespace RateLedger.Text.Percent

/-- The bytes that a text with escapes stands for. -/
def toBytes : List Char → Bytes
  | [] => []
  | '%' :: a :: b :: rest =>
    match Hex.value? a, Hex.value? b with
    | some high, some low => UInt8.ofNat (high * 16 + low) :: toBytes rest
    | _, _ => Bytes.ofText "%" ++ toBytes (a :: b :: rest)
  | c :: rest => Bytes.ofText (String.singleton c) ++ toBytes rest

/-- How many bytes follow the first byte of a UTF-8 form, and the range of the first of them. -/
def followers? (lead : Nat) : Option (Nat × Nat × Nat) :=
  if lead < 0x80 then some (0, 0x80, 0xbf)
  else if lead < 0xc2 then none
  else if lead < 0xe0 then some (1, 0x80, 0xbf)
  else if lead = 0xe0 then some (2, 0xa0, 0xbf)
  else if lead = 0xed then some (2, 0x80, 0x9f)
  else if lead < 0xf0 then some (2, 0x80, 0xbf)
  else if lead = 0xf0 then some (3, 0x90, 0xbf)
  else if lead < 0xf4 then some (3, 0x80, 0xbf)
  else if lead = 0xf4 then some (3, 0x80, 0x8f)
  else none

/-- The bytes, at most `count`, that go on a UTF-8 form: the first lies in a range, the others in
the range of all that follow. -/
def tail (low high : Nat) : (count : Nat) → Bytes → List Nat
  | 0, _ => []
  | _ + 1, [] => []
  | count + 1, byte :: rest =>
    if low ≤ byte.toNat ∧ byte.toNat ≤ high then byte.toNat :: tail 0x80 0xbf count rest else []

/-- The number in the low bits of the first byte of a UTF-8 form with some bytes behind it. -/
def leadBits (lead count : Nat) : Nat := if count = 0 then lead else lead % Number.twoTo (6 - count)

/-- The characters of bytes, where those that are no UTF-8 form are replaced. -/
def readChars : Bytes → List Char
  | [] => []
  | lead :: rest =>
    match followers? lead.toNat with
    | none => '\ufffd' :: readChars rest
    | some (count, low, high) =>
      let found := tail low high count rest
      let char :=
        if found.length = count then
          Char.ofNat (found.foldl (fun n byte => n * 64 + byte % 64) (leadBits lead.toNat count))
        else '\ufffd'
      char :: readChars (rest.drop found.length)
  termination_by bytes => bytes.length
  decreasing_by all_goals simp; try omega

/-- The text that a text with escapes stands for. -/
def decode (text : String) : String := String.ofList (readChars (toBytes text.toList))

end RateLedger.Text.Percent
