import RateLedger.Time.Zone

/-!
# The machine that a client runs on

What a client makes of an answer rests on the database of time zones that is there, and on how deep
lists and objects may be nested for the machine to read them.
-/

namespace RateLedger.Vendor

/-- What reading an answer rests on. -/
structure Machine where
  zones : Time.Zone.Database
  /-- How deep lists and objects are nested at most. -/
  nesting : Nat

end RateLedger.Vendor
