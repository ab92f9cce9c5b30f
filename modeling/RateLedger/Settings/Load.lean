import RateLedger.Checked
import RateLedger.Json.Reader
import RateLedger.Settings.Assignments
import RateLedger.Settings.Basic
import RateLedger.Settings.Coercion

/-!
# Loading settings

A setting is taken from the values given, else from the environment, else from a settings file, else
it keeps its usual value. The environment and the file hold texts under names in any case, the last
of a name counting; there a list is written as JSON. All problems are reported together, in the
order of the settings.
-/

namespace RateLedger.Settings

/-- Why there are no settings. -/
inductive LoadError
  /-- A list is not written as JSON. -/
  | unreadable
  | invalid (problems : List Problem)
  deriving DecidableEq, Repr

/-- A name in small letters; the sign for kelvin counts as a letter too. -/
def smallName (name : String) : String :=
  String.ofList (name.toList.map fun c => if c.toNat = 0x212a then 'k' else c.toLower)

/-- The last text under the name of a setting, if the last entry with the name has one. -/
def textOf? (texts : List (String × Option String)) (name : String) : Option String :=
  (texts.reverse.find? fun entry => smallName entry.1 == smallName (variableName name)).bind (·.2)

/-- The name of the setting that is a list. -/
def listName : String := "poll_pairs"

/-- The values that texts hold for a setting; JSON's null is as good as nothing. -/
def valueOf? (texts : List (String × Option String)) (name : String) :
    Except LoadError (Option Json) :=
  match textOf? texts name with
  | none => .ok none
  | some text =>
    if name = listName then
      match Json.read? text with
      | none => .error .unreadable
      | some .null => .ok none
      | some value => .ok (some value)
    else .ok (some (.str text))

/-- Reads the pairs to poll: the list has to hold texts, and each text has to write a pair. -/
def readPolled (value : Json) : Checked (List WrittenPair) :=
  match value with
  | .arr items =>
    let wrong := items.zipIdx.filterMap fun (item, i) =>
      if item.text?.isNone then some (Problem.mk [.field listName, .item i] .stringType) else none
    if wrong.isEmpty then
      .ofExcept [.field listName] ((items.filterMap Json.text?).mapM WrittenPair.read)
    else .bad wrong
  | _ => .bad [.ofField listName .listType]

/-- Checks the settings found by name. -/
def ofValues (find? : String → Option Json) : Checked Settings :=
  let read {α : Type} (name : String) (usual : Json) (reader : Json → Except Cause α) : Checked α :=
    .ofExcept [.field name] (reader ((find? name).getD usual))
  pure Settings.mk
    <*> read "alpha_vantage_api_key" (.str demoKey) readText
    <*> read "alpha_vantage_base_url" (.str "https://www.alphavantage.co") readText
    <*> read "request_timeout" (.int 10) readFloat
    <*> read "db_root" (.str ".oracle") readPath
    <*> read "api_host" (.str "127.0.0.1") readText
    <*> read "api_port" (.int 3518) readInt
    <*> read "run_daemon" (.bool true) readBool
    <*> readPolled ((find? listName).getD
      (.arr (canonicalTexts.map fun text : String => .str text)))
    <*> read "retention_minutes" (.int 60) readCount
    <*> read "max_retries" (.int 3) readCount
    <*> read "batch_wait_seconds" (.int 30) readFloat
    <*> read "log_level" (.str "INFO") readText

/-- Loads settings from values given, the environment and the text of a settings file. -/
def load (given : List (String × Json)) (environment : List (String × String))
    (file : Option String) : Except LoadError Settings := do
  let written := (file.map assignments).getD []
  let environment := environment.map fun entry => (entry.1, some entry.2)
  let fromEnvironment ← valueOf? environment listName
  let fromFile ← valueOf? written listName
  let find? (name : String) : Option Json :=
    (given.lookup name).or <|
      if name = listName then fromEnvironment.or fromFile
      else ((textOf? environment name).or (textOf? written name)).map fun text : String => .str text
  match ofValues find? with
  | .ok settings => return settings
  | .bad problems => throw (.invalid problems)

end RateLedger.Settings
