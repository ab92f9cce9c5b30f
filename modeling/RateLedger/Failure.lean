import RateLedger.Observation
import RateLedger.Store.Basic
import RateLedger.Vendor.Error

/-!
# Failures

What the services can fail with: a fault of the store, a failure of the vendor, values that make no
observation, a request that is refused with a reason, a number or a time beyond its range, an answer
that is nested too deeply, or a time zone that cannot be read.
-/

namespace RateLedger

/-- Why a service failed. -/
inductive Failure
  | store (fault : StoreFault)
  | vendor (error : Vendor.Error)
  | invalid (problems : List Problem)
  | refused (reason : String)
  /-- A number or a time is too large. -/
  | outOfRange
  /-- Lists and objects are nested too deeply to be read. -/
  | tooDeep
  /-- What is known under the name of a time zone cannot be read. -/
  | zoneUnreadable
  /-- What should be started runs already. -/
  | alreadyRunning (reason : String)
  deriving Repr

/-- Whether it is a failure of the store as such, which a poll can be given up for. -/
def Failure.isBackend : Failure → Bool
  | .store fault => fault.isBackend
  | _ => false

end RateLedger
