import RateLedger.Bytes
import RateLedger.Number.Decimal
import RateLedger.Text.Hex

/-!
# Wide texts

An escape in JSON can write half of a surrogate pair, which is no character. A wide text may hold
such halves between its characters. It has a form in UTF-8 only if it holds none; otherwise the
first halves that stand together are reported. Main statement: a wide text passes as the text
without halves that it is, and no other does (`checked_eq_ok_iff`).
-/

namespace RateLedger.Text

/-- Half of a surrogate pair, counted from the first one. -/
abbrev Half := Fin 2048

/-- The code of a half. -/
def Half.code (half : Half) : Nat := 0xD800 + half

/-- The half with a code, if there is one. -/
def Half.ofCode? (code : Nat) : Option Half :=
  if h : 0xD800 ≤ code ∧ code < 0xE000 then some ⟨code - 0xD800, by omega⟩ else none

/-- The escape of a half. -/
def Half.escape (half : Half) : List Char := '\\' :: 'u' :: Hex.padded 4 half.code

/-- A text that may hold halves of surrogate pairs. -/
inductive Wide
  | plain (text : String)
  /-- Characters, a half, and what follows. -/
  | broken (before : String) (half : Half) (behind : Wide)
  deriving DecidableEq, Repr, Inhabited

/-- Where a text has no form in UTF-8. -/
structure Flaw where
  /-- The characters in front of the first half. -/
  position : Nat
  half : Half
  /-- How many halves follow the first one at once. -/
  more : Nat
  deriving DecidableEq, Repr

/-- What is said about a text without a form in UTF-8. -/
def Flaw.message (flaw : Flaw) : String :=
  let position := Number.Decimal.ofNat flaw.position
  let place := if flaw.more = 0 then
      " '" ++ String.ofList flaw.half.escape ++ "' in position " ++ position
    else "s in position " ++ position ++ "-" ++ Number.Decimal.ofNat (flaw.position + flaw.more)
  "'utf-8' codec can't encode character" ++ place ++ ": surrogates not allowed"

namespace Wide

instance : Coe String Wide := ⟨.plain⟩

/-- One text behind another. -/
def append : Wide → Wide → Wide
  | .plain a, .plain b => .plain (a ++ b)
  | .plain a, .broken before half behind => .broken (a ++ before) half behind
  | .broken before half behind, b => .broken before half (behind.append b)

instance : Append Wide := ⟨append⟩

/-- The text without halves that a text is, if it has none. -/
def plain? : Wide → Option String
  | .plain text => some text
  | .broken .. => none

/-- How many halves stand at the front of a text. -/
def halvesInFront : Wide → Nat
  | .plain _ => 0
  | .broken before _ behind => if before = "" then behind.halvesInFront + 1 else 0

/-- The text without halves that a text is, or its first halves. -/
def checked : Wide → Except Flaw String
  | .plain text => .ok text
  | .broken before half behind => .error ⟨before.length, half, behind.halvesInFront⟩

/-- The bytes of a text in UTF-8. -/
def utf8 (text : Wide) : Except Flaw Bytes := Bytes.ofText <$> text.checked

/-- The characters that each character and each half of a text becomes. -/
def spell (ofChar : Char → List Char) (ofHalf : Half → List Char) : Wide → List Char
  | .plain text => text.toList.flatMap ofChar
  | .broken before half behind =>
    before.toList.flatMap ofChar ++ ofHalf half ++ behind.spell ofChar ofHalf

/-- The text with escapes for its halves. -/
def escaped : Wide → String
  | .plain text => text
  | .broken before half behind => before ++ String.ofList half.escape ++ behind.escaped

theorem checked_eq_ok_iff {text : Wide} {plain : String} :
    text.checked = .ok plain ↔ text = plain := by
  cases text with
  | plain other =>
    exact ⟨fun h => congrArg _ (Except.ok.inj h), fun h => congrArg _ (Wide.plain.inj h)⟩
  | broken before half behind => exact ⟨nofun, nofun⟩

end Wide

end RateLedger.Text
