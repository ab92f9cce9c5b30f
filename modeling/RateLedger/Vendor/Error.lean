import RateLedger.Json.Basic

/-!
# Failures of a vendor

A vendor fails when a request is not answered well or when the answer holds no observation. The
failure tells its cause, the status of the answer if it is known, and what was answered.
-/

namespace RateLedger.Vendor

open Text (Wide)

/-- Why a vendor gave no observation. -/
inductive Fault
  | requestFailed
  | invalidJson
  | unexpectedType
  /-- The answer says so itself. -/
  | reported (notice : Wide)
  | noRate
  | missingFields
  | rateNotNumeric
  | unknownZone (name : Wide)
  | unreadableDate (text : Wide)
  | invalidEntry
  /-- A source of another kind says so. -/
  | sourceFailed (notice : String)
  deriving DecidableEq, Repr

/-- What is said about a failure. -/
def Fault.message : Fault → Wide
  | .requestFailed => "Alpha Vantage request failed"
  | .invalidJson => "Alpha Vantage returned invalid JSON"
  | .unexpectedType => "Alpha Vantage returned unexpected payload type"
  | .reported notice => "Alpha Vantage error: " ++ notice
  | .noRate => "Alpha Vantage payload missing exchange rate data"
  | .missingFields => "Alpha Vantage exchange rate entry missing required fields"
  | .rateNotNumeric => "Alpha Vantage exchange rate is not numeric"
  | .unknownZone name => "Alpha Vantage returned unknown time zone " ++ Text.Quoted.ofText name
  | .unreadableDate text => "Alpha Vantage returned unparseable date " ++ Text.Quoted.ofText text
  | .invalidEntry => "Alpha Vantage exchange rate entry is invalid"
  | .sourceFailed notice => notice

/-- A failure of a vendor. -/
structure Error where
  fault : Fault
  status : Option Int
  /-- What was answered, or the part of it that is wrong; null if there is nothing to show. -/
  payload : Json
  deriving Repr

end RateLedger.Vendor
