import RateLedger.Failure
import RateLedger.Json.Reader

/-!
# Deliveries

A request to a vendor is answered by a status and a text, or it breaks, perhaps with an answer seen
so far. A good answer is a JSON object without a notice of failure in it. The answer to a refused
request is read as well, to show what it says. An answer that is nested too deeply cannot be read in
either case, and the failure of that is none of the vendor.
-/

namespace RateLedger.Vendor

/-- An answer as it came. -/
structure Reply where
  status : Int
  body : String
  deriving DecidableEq, Repr

/-- What comes of a request. -/
inductive Delivery
  | answered (reply : Reply)
  /-- The request was refused as a whole. -/
  | refused (reply : Option Reply)
  /-- The request broke on the way. -/
  | broken (reply : Option Reply)
  deriving DecidableEq, Repr

/-- Whether an answer tells a failure by its status. -/
def Reply.isFailure (reply : Reply) : Bool := 400 ≤ reply.status && reply.status < 600

/-- The JSON of an answer, or its text if it is none. -/
def Reply.content (nesting : Nat) (reply : Reply) : Except Failure Json :=
  match Json.read nesting reply.body with
  | .ok value => .ok value
  | .error .malformed => .ok (.str reply.body)
  | .error .tooDeep => .error .tooDeep

/-- The failure of a request that was refused with an answer. -/
def Reply.refusal (nesting : Nat) (reply : Reply) : Failure :=
  match reply.content nesting with
  | .ok content => .vendor ⟨.requestFailed, reply.status, content⟩
  | .error failure => failure

/-- The fields of an answer in which a vendor tells a failure, in the order they are looked at. -/
def noticeFields : List String := ["Error Message", "Note", "Information"]

/-- The first notice of failure in an answer. -/
def notice? (payload : Json) : Option Json :=
  (noticeFields.map payload.get).find? fun notice => !notice.isEmpty

/-- The object that an answer holds. -/
def Reply.payload (nesting : Nat) (reply : Reply) : Except Failure Json :=
  match Json.read nesting reply.body with
  | .error .malformed => .error (.vendor ⟨.invalidJson, none, .str reply.body⟩)
  | .error .tooDeep => .error .tooDeep
  | .ok (.obj fields) =>
    match notice? (.obj fields) with
    | some notice => .error (.vendor ⟨.reported notice.phrase, reply.status, .obj fields⟩)
    | none => .ok (.obj fields)
  | .ok value => .error (.vendor ⟨.unexpectedType, none, value⟩)

/-- The object that was delivered. -/
def Delivery.payload (nesting : Nat) : Delivery → Except Failure Json
  | .answered reply =>
    if reply.isFailure then .error (reply.refusal nesting) else reply.payload nesting
  | .refused (some reply) => .error (reply.refusal nesting)
  | .refused none => .error (.vendor ⟨.requestFailed, none, .null⟩)
  | .broken reply => .error (.vendor ⟨.requestFailed, reply.map (·.status), .null⟩)

end RateLedger.Vendor
