import RateLedger.CommandLine.Arguments
import RateLedger.Files.DataRoot
import RateLedger.Journal
import RateLedger.Settings.Load

/-!
# Running commands

A command works in a directory, with an environment. It prints lines, reports errors and journal
lines, and ends with a number, or it fails before it can start. The settings come from the
environment and from the settings file in the directory; their level says which journal lines are
shown.
-/

namespace RateLedger.CommandLine

/-- The name of the settings file. -/
def settingsFile : String := ".env"

/-- The directory a command works in, with its name and the environment. -/
structure Workplace where
  name : String
  tree : Files.Tree
  environment : List (String × String)

/-- What a server is started with. -/
structure Serving where
  settings : Settings
  title : String
  logLevel : String

/-- Why a command cannot start. -/
inductive Failure
  | settings (error : Settings.LoadError)
  | unknownLevel (name : String)
  deriving DecidableEq, Repr

/-- What is said about an unknown level. -/
def levelMessage (name : String) : String := "Unknown level: " ++ Text.Quoted.ofText name

/-- How a command ended. -/
inductive Ending
  | code (code : Nat)
  /-- The arguments name no command. -/
  | exit (exit : Exit)
  | failed (failure : Failure)
  deriving DecidableEq, Repr

/-- What came of a command. -/
structure Outcome where
  ending : Ending
  printed : List String
  reported : List String
  /-- What is reported when serving is over. -/
  closing : List String
  /-- The least rank of the journal lines shown, once it is set. -/
  threshold : Option Nat
  tree : Files.Tree
  serving : Option Serving

namespace Workplace

/-- The outcome of a command that did nothing yet. -/
def untouched (place : Workplace) (ending : Ending) : Outcome :=
  ⟨ending, [], [], [], none, place.tree, none⟩

/-- The settings, from the environment and perhaps from the settings file. -/
def load (place : Workplace) (withFile : Bool) : Except Settings.LoadError Settings :=
  let file := match place.tree.find? [settingsFile] with
    | some (.file text) => some text
    | _ => none
  Settings.load [] place.environment (if withFile then file else none)

/-- Writes the settings file, unless there is one. -/
def configure (place : Workplace) : Outcome :=
  if (place.tree.find? [settingsFile]).isSome then
    { place.untouched (.code 1) with
      reported := [place.name ++ "/" ++ settingsFile ++
        " already exists. Please remove it first"] }
  else
    match place.load false with
    | .error error => place.untouched (.failed (.settings error))
    | .ok settings =>
      { place.untouched (.code 0) with
        printed := [settingsFile ++ " file configured and created in " ++ place.name]
        tree := place.tree.insert [settingsFile] (.file settings.fileText) }

/-- Removes the data directory. -/
def clean (place : Workplace) (settings : Settings) : Outcome :=
  let done := Files.clean place.tree settings.root
  let code := match done.result with
    | .ok _ => 0
    | .error _ => 1
  let reported := match done.result with
    | .ok _ => []
    | .error error =>
      ["Failed to clean " ++ settings.root.text ++ ": " ++ error.message settings.root]
  { place.untouched (.code code) with
    printed := ["Cleaning oracle data directory: " ++ settings.root.text]
    reported
    tree := done.tree }

/-- The text of a journal line. -/
def reportLine (line : Line) : String :=
  line.level.name ++ " " ++ line.speaker ++ " " ++ line.text.escaped

/-- The texts of a journal line that is shown from a rank on. -/
def shown (threshold : Nat) (line : Line) : List String :=
  if threshold ≤ line.level.rank then [reportLine line] else []

/-- Serves. -/
def serve (place : Workplace) (settings : Settings) (threshold : Nat) : Outcome :=
  { place.untouched (.code 0) with
    reported := shown threshold ⟨.info, "main", "FX oracle is serving on " ++ settings.host ++
      ":" ++ Number.Decimal.ofInt settings.tcpPort⟩
    closing := shown threshold ⟨.warning, "main", "Shutdown complete."⟩
    serving := some ⟨settings, "FX Oracle", settings.logLevel.toLower⟩ }

/-- Runs a command that needs the settings. -/
def withSettings (place : Workplace) (body : Settings → Nat → Outcome) : Outcome :=
  match place.load true with
  | .error error => place.untouched (.failed (.settings error))
  | .ok settings =>
    let level := Text.UpperCase.ofText settings.logLevel
    match Level.threshold? level with
    | none => place.untouched (.failed (.unknownLevel level))
    | some threshold => { body settings threshold with threshold := some threshold }

/-- Runs the command that the arguments name. -/
def run (place : Workplace) (arguments : List String) : Outcome :=
  match read arguments with
  | .error exit => place.untouched (.exit exit)
  | .ok .incomplete =>
    { place.untouched (.code 2) with reported := ["Subcommand required"] }
  | .ok .configure => place.configure
  | .ok .clean => place.withSettings fun settings _ => place.clean settings
  | .ok .serve => place.withSettings place.serve

end Workplace

end RateLedger.CommandLine
