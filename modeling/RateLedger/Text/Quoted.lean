import RateLedger.Text.Printable
import RateLedger.Text.Wide

/-!
# Quoted texts and byte strings

A quoted text stands between two equal quotes: apostrophes, unless the text holds an apostrophe
and no double quote. Inside, the quote and the backslash get a backslash, line feed, carriage
return and tab have short escapes, and every other character that is not printable is written by
the shortest of the escapes with two, four or eight hexadecimal digits. A byte string gets a `b` in
front and keeps only the printable characters of ASCII.
-/

namespace RateLedger.Text.Quoted

/-- The quote to put around these characters. -/
def quoteFor (chars : List Char) : Char :=
  if chars.contains '\'' && !chars.contains '"' then '"' else '\''

/-- The escape of a character by its number. -/
def numbered (code : Nat) : List Char :=
  if code < 0x100 then '\\' :: 'x' :: Hex.padded 2 code
  else if code < 0x10000 then '\\' :: 'u' :: Hex.padded 4 code
  else '\\' :: 'U' :: Hex.padded 8 code

/-- A character inside the quotes, where `keep` says which characters stand as they are. -/
def escape (keep : Char → Bool) (quote c : Char) : List Char :=
  if c = quote ∨ c = '\\' then ['\\', c]
  else if c = '\n' then ['\\', 'n']
  else if c = '\r' then ['\\', 'r']
  else if c = '\t' then ['\\', 't']
  else if keep c then [c]
  else numbered c.toNat

/-- The characters of a text, between quotes. -/
def enclose (keep : Char → Bool) (text : Wide) : List Char :=
  let quote := quoteFor (text.spell ([·]) fun _ => [])
  quote :: text.spell (escape keep quote) Half.escape ++ [quote]

/-- The quoted form of a text. -/
def ofText (text : Wide) : String := String.ofList (enclose Printable.isPrintable text)

/-- The quoted form of a byte string. -/
def ofBytes (bytes : Bytes) : String :=
  let text := String.ofList (bytes.map fun byte => Char.ofNat byte.toNat)
  String.ofList ('b' :: enclose (fun c => 32 ≤ c.toNat && c.toNat < 127) text)

end RateLedger.Text.Quoted
