/-!
# Paths

A path starts here, at the root, or at the root that two slashes name, and goes down through named
parts. Written out it has no needless slashes and dots; two dots are a part like any other.
-/

namespace RateLedger.Files

/-- Where a path starts. -/
inductive Anchor
  | here
  | root
  | doubleRoot
  deriving DecidableEq, Repr

/-- The text in front of the parts of a path. -/
def Anchor.text : Anchor → String
  | .here => ""
  | .root => "/"
  | .doubleRoot => "//"

/-- The anchor of a text with some slashes in front. -/
def Anchor.ofSlashes : Nat → Anchor
  | 0 => .here
  | 2 => .doubleRoot
  | _ => .root

/-- Whether a text can be a part of a path. -/
def isPart (text : String) : Bool := text != "" && text != "." && !text.toList.contains '/'

/-- A path. -/
structure Path where
  anchor : Anchor
  parts : List String
  isPart_parts : ∀ part ∈ parts, isPart part = true
  deriving DecidableEq

namespace Path

/-- The path that a text writes. -/
def ofText (text : String) : Path where
  anchor := .ofSlashes (text.toList.takeWhile (· == '/')).length
  parts := ((text.toList.splitOn '/').map String.ofList).filter isPart
  isPart_parts _ h := (List.mem_filter.1 h).2

/-- The written form of a path. -/
def text (path : Path) : String :=
  if path.anchor = .here ∧ path.parts = [] then "."
  else path.anchor.text ++ String.intercalate "/" path.parts

/-- The path that goes on through more parts. -/
def down (path : Path) (names : List String) : Path where
  anchor := path.anchor
  parts := path.parts ++ names.filter isPart
  isPart_parts part h := by
    rcases List.mem_append.1 h with h | h
    · exact path.isPart_parts part h
    · exact (List.mem_filter.1 h).2

end Path

end RateLedger.Files
