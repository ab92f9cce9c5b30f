import RateLedger.Daemon
import RateLedger.Http.Api
import RateLedger.Settings.Basic
import RateLedger.Vendor.Client

/-!
# The server

A server is the HTTP interface to a service whose source is a vendor's client, and perhaps a poller
beside it. Both are made from the settings when the server starts.
-/

namespace RateLedger

/-- The source that asks a vendor, with `deliver` telling what comes of the request with a number,
counted from zero. -/
def Vendor.Client.source (client : Client) (machine : Machine)
    (deliver : Nat → Request → Delivery) : Source :=
  fun _ asked pair => client.rate machine (deliver (asked.filter canAsk).length) pair

/-- How the settings ask to poll. -/
def Settings.polling (settings : Settings) : Except Failure Polling :=
  match Time.span? (settings.retentionMinutes * Service.microsPerMinute) with
  | none => .error .outOfRange
  | some retention =>
    .ok ⟨settings.pairs, retention, settings.maxRetries, settings.batchWait⟩

/-- A server. -/
structure Server where
  api : Http.Api
  client : Vendor.Client
  /-- What to poll beside serving, if anything. -/
  polling : Option Polling

namespace Server

/-- What is said about the key that anybody may use. -/
def demoKeyNotice : String :=
  "Using the demo Alpha Vantage API key, which is heavily rate limited; " ++
    "claim your own at https://www.alphavantage.co/support/#api-key"

/-- The version of the program. -/
def version : String := "0.1.0"

/-- The version of the program where none is known. -/
def unknownVersion : String := "unknown"

/-- Starts a server. -/
def start (settings : Settings) (version : Option String) (machine : Vendor.Machine)
    (deliver : Nat → Vendor.Request → Vendor.Delivery) : Action Server := do
  if settings.usesDemoKey then Action.note .warning Http.Api.speaker demoKeyNotice
  let client ← ExceptT.mk (pure
    (Vendor.Client.make settings.apiKey settings.baseUrl settings.timeout))
  let polling ← if settings.polls then some <$> ExceptT.mk (pure settings.polling) else pure none
  modify fun world => { world with source := client.source machine deliver }
  return ⟨⟨⟨Pair.canonical, settings.batchWait⟩, version.getD unknownVersion⟩, client, polling⟩

end Server

end RateLedger
