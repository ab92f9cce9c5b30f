import RateLedger.Text.Blank

/-!
# Assignments

A settings file is a text of assignments `NAME=value`, one to a line, among comments and blank
lines. A value in single or double quotes is taken from between them, with escapes; any other value
ends with its line or with a comment that follows a blank, and blanks around it do not count. A name
may stand without a value, and a line that is none of this is passed over.
-/

namespace RateLedger.Settings

open Text.Blank (isBlank)

/-- Whether a character ends a line. -/
def isLineEnd (c : Char) : Bool := c == '\n' || c == '\r'

/-- Whether a character is a blank within a line. -/
def isLineBlank (c : Char) : Bool := isBlank c && !isLineEnd c

/-- A text without the blanks of its line in front. -/
def dropLineBlanks (chars : List Char) : List Char := chars.dropWhile isLineBlank

/-- A text behind the word that may stand before a name. -/
def dropExport (chars : List Char) : List Char :=
  let word := "export".toList
  let rest := chars.drop word.length
  if word.isPrefixOf chars && rest.head?.any isLineBlank then dropLineBlanks rest else chars

/-- The text in front of the quote that closes a quotation, and what follows it. A quote behind a
backslash closes only if no other does; `found` is read already, reversed, and `other` is the last
way to close. -/
def closing? (quote : Char) (found : List Char) (other : Option (List Char × List Char)) :
    List Char → Option (List Char × List Char)
  | [] => other
  | c :: rest =>
    if c = quote then
      if found.head? = some '\\' then
        closing? quote (c :: found) (some (found.reverse, rest)) rest
      else some (found.reverse, rest)
    else closing? quote (c :: found) other rest

/-- A quoted text with its escapes resolved. -/
def resolve (escapes : List (Char × Char)) : List Char → List Char
  | [] => []
  | [c] => [c]
  | '\\' :: c :: rest =>
    match escapes.lookup c with
    | some meant => meant :: resolve escapes rest
    | none => '\\' :: resolve escapes (c :: rest)
  | c :: rest => c :: resolve escapes rest

/-- The escapes in single quotes. -/
def singleEscapes : List (Char × Char) := [('\\', '\\'), ('\'', '\'')]

/-- The escapes in double quotes. -/
def doubleEscapes : List (Char × Char) := singleEscapes ++ [('"', '"'), ('a', '\x07'),
  ('b', '\x08'), ('f', '\x0c'), ('n', '\n'), ('r', '\r'), ('t', '\t'), ('v', '\x0b')]

/-- A value without the comment that follows a blank; `before` is read already, reversed. -/
def dropComment (before : List Char) : List Char → List Char
  | [] => before.reverse
  | c :: rest =>
    if c = '#' ∧ before.head?.any isBlank then before.reverse else dropComment (c :: before) rest

/-- A text without the blanks at its end. -/
def dropEndBlanks (chars : List Char) : List Char := (chars.reverse.dropWhile isBlank).reverse

/-- The value behind an equals sign, and what follows it. -/
def assignedValue? (chars : List Char) : Option (List Char × List Char) :=
  match dropLineBlanks chars with
  | '\'' :: rest =>
    (closing? '\'' [] none rest).map fun (inside, rest) => (resolve singleEscapes inside, rest)
  | '"' :: rest =>
    (closing? '"' [] none rest).map fun (inside, rest) => (resolve doubleEscapes inside, rest)
  | rest =>
    some (dropEndBlanks (dropComment [] (rest.takeWhile (!isLineEnd ·))),
      rest.dropWhile (!isLineEnd ·))

/-- The name of an assignment, if it has one, and what follows it. -/
def assignedName? : List Char → Option (Option (List Char) × List Char)
  | '#' :: rest => some (none, '#' :: rest)
  | '\'' :: rest =>
    match rest.span (· != '\'') with
    | (c :: name, _ :: rest) => some (some (c :: name), rest)
    | _ => none
  | chars =>
    match chars.span fun c => c != '=' && c != '#' && !isBlank c with
    | ([], _) => none
    | (name, rest) => some (some name, rest)

/-- What follows a line, of which only a comment may be left. -/
def lineRest? (chars : List Char) : Option (List Char) :=
  let chars := dropLineBlanks chars
  let chars := if chars.head? = some '#' then chars.dropWhile (!isLineEnd ·) else chars
  match chars with
  | [] => some []
  | c :: rest => if isLineEnd c then some rest else none

/-- A name with the value assigned to it, if there is one. -/
abbrev Assignment := String × Option String

/-- The assignment at the front of a text, if it has one, and what follows. -/
def assignment? (chars : List Char) : Option (Option Assignment × List Char) := do
  let (name, rest) ← assignedName? (dropExport chars)
  let (value, rest) ← match dropLineBlanks rest with
    | '=' :: rest => (assignedValue? rest).map fun (value, rest) => (some value, rest)
    | rest => some (none, rest)
  let rest ← lineRest? rest
  pure (name.map fun name => (String.ofList name, value.map String.ofList), rest)

/-- The assignments of a text; each step passes over at least one character. -/
def assignmentsFrom : (fuel : Nat) → List Char → List Assignment
  | 0, _ => []
  | fuel + 1, chars =>
    match chars.dropWhile isBlank with
    | [] => []
    | chars =>
      match assignment? chars with
      | none => assignmentsFrom fuel (chars.dropWhile (!isLineEnd ·))
      | some (found, rest) => found.toList ++ assignmentsFrom fuel rest

/-- The assignments of a text, in their order. -/
def assignments (text : String) : List Assignment :=
  assignmentsFrom (text.length + 1) text.toList

end RateLedger.Settings
