import RateLedger.Vendor.Entry

/-!
# The client of a vendor

A client asks a vendor for the rate of a pair in one request and reads the rate from what is
delivered. It needs a key and both codes.
-/

namespace RateLedger.Vendor

/-- A request to a vendor. -/
structure Request where
  method : String
  url : String
  params : List (String × String)
  /-- How many seconds to wait for an answer. -/
  timeout : Binary64
  deriving DecidableEq

/-- A client. -/
structure Client where
  apiKey : String
  /-- The address of the vendor, without slashes at its end. -/
  baseUrl : String
  timeout : Binary64

namespace Client

/-- A text without the slashes at its end. -/
def dropEndSlashes (text : String) : String :=
  String.ofList (text.toList.reverse.dropWhile (· == '/')).reverse

/-- The client with a key for an address. -/
def make (apiKey baseUrl : String) (timeout : Binary64) : Except Failure Client :=
  if apiKey = "" then .error (.refused "api_key must be provided")
  else .ok ⟨apiKey, dropEndSlashes baseUrl, timeout⟩

/-- The request for the rate of a pair. -/
def request (client : Client) (pair : Pair) : Request where
  method := "GET"
  url := client.baseUrl ++ "/query"
  params := [("function", "CURRENCY_EXCHANGE_RATE"), ("from_currency", pair.base),
    ("to_currency", pair.quote), ("apikey", client.apiKey)]
  timeout := client.timeout

/-- Whether a pair has both codes, without which nothing is asked. -/
def canAsk (pair : Pair) : Bool := pair.base != "" && pair.quote != ""

/-- What a delivery tells. -/
def readDelivery (machine : Machine) (delivery : Delivery) : Except Failure Sighting :=
  match delivery.payload machine.nesting with
  | .error failure => .error failure
  | .ok payload =>
    match Entry.ofPayload payload with
    | .error failure => .error failure
    | .ok entry => entry.sighting machine.zones

/-- Asks for the rate of a pair, with `deliver` telling what comes of a request. -/
def rate (client : Client) (machine : Machine) (deliver : Request → Delivery) (pair : Pair) :
    Except Failure Sighting :=
  if canAsk pair then readDelivery machine (deliver (client.request pair))
  else .error (.refused "from_currency and to_currency must be provided")

end Client

end RateLedger.Vendor
