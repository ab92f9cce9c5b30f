/-!
# Blank characters and trimming

Two sets of blanks are in use. A space in the wide sense also counts the four information
separators; the narrow set leaves them out. Trimming drops blanks at both ends only.
-/

namespace RateLedger.Text.Blank

/-- The code points of white space. -/
def codes : List Nat := [
  9, 10, 11, 12, 13, 32, 133, 160, 5760, 8192, 8193, 8194, 8195, 8196, 8197, 8198, 8199, 8200,
  8201, 8202, 8232, 8233, 8239, 8287, 12288
]

/-- Whether the character is white space. -/
def isWhite (c : Char) : Bool := codes.contains c.toNat

/-- Whether the character is white space or an information separator. -/
def isBlank (c : Char) : Bool := isWhite c || (28 ≤ c.toNat && c.toNat ≤ 31)

/-- The characters without those of the class at both ends. -/
def trimBoth (drop : Char → Bool) (chars : List Char) : List Char :=
  ((chars.dropWhile drop).reverse.dropWhile drop).reverse

/-- The text without blanks at both ends. -/
def trim (text : String) : String := String.ofList (trimBoth isBlank text.toList)

/-- Nothing is trimmed where neither end is dropped. -/
theorem trimBoth_eq_self {drop : Char → Bool} {chars : List Char}
    (hfirst : ∀ c ∈ chars.head?, drop c = false) (hlast : ∀ c ∈ chars.getLast?, drop c = false) :
    trimBoth drop chars = chars := by
  have hkeep : ∀ chars : List Char, (∀ c ∈ chars.head?, drop c = false) →
      chars.dropWhile drop = chars := by
    intro chars h
    cases chars with
    | nil => rfl
    | cons c chars => rw [List.dropWhile_cons, h c rfl, if_neg Bool.false_ne_true]
  have hback : ∀ c ∈ chars.reverse.head?, drop c = false := by
    rwa [List.head?_reverse]
  unfold trimBoth
  rw [hkeep chars hfirst, hkeep chars.reverse hback, List.reverse_reverse]

end RateLedger.Text.Blank
