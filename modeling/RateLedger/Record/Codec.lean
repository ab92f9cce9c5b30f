import RateLedger.Record.Field
import RateLedger.Sighting

/-!
# The record of an observation

An observation is stored as its base code, its quote code, its rate and its second, and nothing
else. A sighting is recorded in the same way if its codes have a form in UTF-8. Reading checks
everything again, so that only records of observations are read.
-/

namespace RateLedger

/-- The record of a rate and a second, with the bytes of two codes. -/
def Record.ofCodes (base quote : Bytes) (rate : Binary64) (seconds : Nat) : Bytes :=
  sized base ++ sized quote ++ Bytes.word rate.word ++ Bytes.signedWord seconds

/-- The record of an observation. -/
def Observation.toRecord (x : Observation) : Bytes :=
  Record.ofCodes (Bytes.ofText x.base) (Bytes.ofText x.quote) x.rate x.seconds

/-- The record of a sighting, whose codes are encoded one after the other. -/
def Sighting.encode (y : Sighting) : Except Text.Flaw Bytes := do
  let base ← y.base.utf8
  let quote ← y.quote.utf8
  return Record.ofCodes base quote y.rate y.seconds

namespace Record

/-- The values of a record, in their order. -/
def values : Reading (String × String × Binary64 × Int) := do
  let base ← Reading.text
  let quote ← Reading.text
  let rate ← Reading.double
  let seconds ← Reading.signed
  return (base, quote, rate, seconds)

/-- The observation with these stored values. -/
def observation (base quote : String) (rate : Binary64) (seconds : Int) :
    Except Fault Observation :=
  if h : (Time.minWall / Time.microsPerSecond ≤ seconds) ∧ seconds ≤ Time.maxSecond then
    match Observation.make base quote rate seconds h.2 with
    | .ok x => .ok x
    | .error _ => .error .badValues
  else .error (.badTime seconds)

/-- The observation that a byte string records. -/
def decode (bytes : Bytes) : Except Fault Observation :=
  match values.run.run bytes with
  | (.error fault, _) => .error fault
  | (.ok (base, quote, rate, seconds), left) =>
    if left.isEmpty then observation base quote rate seconds else .error (.trailing left.length)

end Record

/-- What is recorded of a sighting is the record of the observation that it is stored as. -/
theorem Sighting.encode_eq (y : Sighting) : y.encode = y.stored.map Observation.toRecord := by
  cases hstored : y.stored with
  | ok x =>
    rw [Sighting.stored_eq_ok_iff.1 hstored]
    rfl
  | error flaw =>
    unfold encode Text.Wide.utf8
    rcases Sighting.stored_eq_error_iff.1 hstored with hbase | ⟨⟨base, hbase⟩, hquote⟩
    · rw [hbase]
      rfl
    · rw [hbase, hquote]
      rfl

end RateLedger
