import RateLedger.Files.Path
import RateLedger.Json.Basic
import RateLedger.Pair
import RateLedger.Service

/-!
# Settings

The settings say where the vendor and the data are, where the program listens, and how it polls. The
pairs to poll are kept as they were written, each with the pair it writes. A settings file has one
line for each setting.
-/

namespace RateLedger

/-- A pair as it was written. -/
structure WrittenPair where
  text : String
  pair : Pair
  parses : Pair.parse text = .ok pair
  deriving DecidableEq

/-- The pair that a text writes, with the text. -/
def WrittenPair.read (text : String) : Except Cause WrittenPair :=
  match h : Pair.parse text with
  | .ok pair => .ok ⟨text, pair, h⟩
  | .error fault => .error (.refused (fault.message text))

/-- The settings. -/
structure Settings where
  apiKey : String
  baseUrl : String
  /-- How many seconds to wait for the vendor. -/
  timeout : Binary64
  /-- The directory of the data. -/
  root : Files.Path
  host : String
  tcpPort : Int
  polls : Bool
  polled : List WrittenPair
  retentionMinutes : Nat
  maxRetries : Nat
  /-- How many seconds to wait for the lock. -/
  batchWait : Binary64
  logLevel : String
  deriving DecidableEq

namespace Settings

/-- The vendor's key that anybody may use. -/
def demoKey : String := "2BY6TAJHCM9Z7HQT"

/-- Whether the key is the one that anybody may use. -/
def usesDemoKey (settings : Settings) : Bool := settings.apiKey == demoKey

/-- The texts of the pairs that are polled unless others are given. -/
def canonicalTexts : List String := Pair.canonical.map Pair.text

/-- The pairs to poll. -/
def pairs (settings : Settings) : List Pair := settings.polled.map (·.pair)

/-- The names of the settings with their values, in order. -/
def entries (settings : Settings) : List (String × Json) := [
  ("alpha_vantage_api_key", .str settings.apiKey),
  ("alpha_vantage_base_url", .str settings.baseUrl),
  ("request_timeout", .float settings.timeout),
  ("db_root", .str settings.root.text),
  ("api_host", .str settings.host),
  ("api_port", .int settings.tcpPort),
  ("run_daemon", .bool settings.polls),
  ("poll_pairs", .arr (settings.polled.map fun written => .str written.text)),
  ("retention_minutes", .int settings.retentionMinutes),
  ("max_retries", .int settings.maxRetries),
  ("batch_wait_seconds", .float settings.batchWait),
  ("log_level", .str settings.logLevel)]

/-- The names of the settings, in order. -/
def names : List String := ["alpha_vantage_api_key", "alpha_vantage_base_url", "request_timeout",
  "db_root", "api_host", "api_port", "run_daemon", "poll_pairs", "retention_minutes",
  "max_retries", "batch_wait_seconds", "log_level"]

theorem map_fst_entries (settings : Settings) : settings.entries.map (·.1) = names := rfl

/-- The text of a value in a settings file; a list has its items in double quotes as they are. -/
def valueText : Json → String
  | .arr items =>
    let texts := items.map fun item => "\"" ++ item.phrase.escaped ++ "\""
    "[" ++ String.intercalate "," texts ++ "]"
  | value => value.phrase.escaped

/-- The name of a setting in a settings file and in the environment. -/
def variableName (name : String) : String := "ORACLE_" ++ name.toUpper

/-- The lines of a settings file. -/
def lines (settings : Settings) : List String :=
  ["# Generated configuration for the FX oracle.",
    "# Every value may also be set as an environment variable of the same name.", ""] ++
  settings.entries.map fun (name, value) => variableName name ++ "=" ++ valueText value

/-- The text of a settings file. -/
def fileText (settings : Settings) : String :=
  String.intercalate "\n" settings.lines ++ "\n"

end Settings

end RateLedger
