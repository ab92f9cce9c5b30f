/-!
# Problems with given values

A value from outside that cannot be used is reported with its place, a list of field names and
positions, and its cause. A problem of a record as a whole has the empty place.
-/

namespace RateLedger

/-- A step on the way to a value. -/
inductive Place
  | field (name : String)
  | item (index : Nat)
  deriving DecidableEq, Repr

/-- Why a value cannot be used. -/
inductive Cause
  | missing
  | intParsing
  | intParsingSize
  | intFromFloat
  | intType
  | finiteNumber
  | floatParsing
  | floatType
  | boolParsing
  | boolType
  | stringType
  | listType
  | pathType
  | atLeast
  | atMost
  /-- A check of ours refused it. -/
  | refused (reason : String)
  deriving DecidableEq, Repr

/-- The name of a cause. -/
def Cause.name : Cause → String
  | .missing => "missing"
  | .intParsing => "int_parsing"
  | .intParsingSize => "int_parsing_size"
  | .intFromFloat => "int_from_float"
  | .intType => "int_type"
  | .finiteNumber => "finite_number"
  | .floatParsing => "float_parsing"
  | .floatType => "float_type"
  | .boolParsing => "bool_parsing"
  | .boolType => "bool_type"
  | .stringType => "string_type"
  | .listType => "list_type"
  | .pathType => "path_type"
  | .atLeast => "greater_than_equal"
  | .atMost => "less_than_equal"
  | .refused _ => "value_error"

/-- A value that cannot be used. -/
structure Problem where
  place : List Place
  cause : Cause
  deriving DecidableEq, Repr

/-- The problem of a field. -/
def Problem.ofField (name : String) (cause : Cause) : Problem := ⟨[.field name], cause⟩

/-- What is said about a value that a check of ours refused. -/
def Problem.message? (problem : Problem) : Option String :=
  match problem.cause with
  | .refused reason => some ("Value error, " ++ reason)
  | _ => none

end RateLedger
