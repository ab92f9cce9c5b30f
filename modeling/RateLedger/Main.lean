import RateLedger.CommandLine.Run
import RateLedger.Server

/-!
# The program

The program runs the command that its arguments name in the current directory. A server answers the
requests on standard input, one to a line: the time in its international form, the method and the
target. It writes the status and the body of each response to standard output, and journal lines
to standard error. No vendor can be reached from here.
-/

open RateLedger

namespace RateLedger.Program

/-- The text of a file, a directory, or nothing. -/
def readNode (path : String) : IO (Option Files.Node) := do
  try
    return some (.file (← IO.FS.readFile path))
  catch
    | .noFileOrDirectory .. => return none
    | _ => return some .directory

/-- The parts of the current directory that a command can touch. -/
def readTree (environment : List (String × String)) : IO Files.Tree := do
  let settingsNode ← readNode CommandLine.settingsFile
  let withSettings : Files.Tree := match settingsNode with
    | some node => Files.Tree.insert ⟨[]⟩ [CommandLine.settingsFile] node
    | none => ⟨[]⟩
  match CommandLine.Workplace.load ⟨".", withSettings, environment⟩ true with
  | .error _ => return withSettings
  | .ok settings =>
    match ← readNode settings.root.text with
    | none => return withSettings
    | some .directory =>
      match withSettings.makePath settings.root with
      | .ok (tree, _) => return tree
      | .error _ => return withSettings
    | some (.file text) =>
      return withSettings.insert (Files.Tree.anchor settings.root ++ settings.root.parts)
        (.file text)

/-- The settings in the environment. -/
def readEnvironment : IO (List (String × String)) :=
  Settings.names.filterMapM fun name => do
    let name := Settings.variableName name
    return (← IO.getEnv name).map (name, ·)

/-- The path of a place. -/
def placeText (place : Files.Place) : String :=
  if Files.Tree.root.isPrefixOf place then "/" ++ String.intercalate "/" (place.drop 1)
  else String.intercalate "/" place

/-- Writes the new settings file, and removes the data directory that is gone. -/
def carryOut (before : Files.Tree) (outcome : CommandLine.Outcome) : IO Unit := do
  let place := [CommandLine.settingsFile]
  match before.find? place, outcome.tree.find? place with
  | none, some (.file text) => IO.FS.writeFile CommandLine.settingsFile text
  | _, _ => pure ()
  for (gone, _) in before.entries do
    if gone ≠ place ∧ outcome.tree.find? gone = none then
      try IO.FS.removeDirAll (placeText gone) catch _ => pure ()

/-- The time, the method and the target of a line. -/
def readLine? (line : String) : Option (Time.DateTime × Http.Request) :=
  match line.toList.splitOn ' ' with
  | [time, method, target] =>
    (Time.Iso.read? (String.ofList time)).map fun time =>
      (time, Http.Request.ofTarget (String.ofList method) (String.ofList target))
  | _ => none

/-- Answers the requests on standard input until it ends. -/
partial def answerLines (api : Http.Api) (threshold : Nat) (world : World)
    (input : IO.FS.Stream) : IO Unit := do
  let line ← input.getLine
  if line.isEmpty then return
  match readLine? line.trimAsciiEnd.toString with
  | none =>
    IO.eprintln "a line needs a time, a method and a target"
    answerLines api threshold world input
  | some (clock, request) =>
    let (response, world) := (api.handle request).run { world with clock }
    for line in world.store.journal.reverse do
      (CommandLine.Workplace.shown threshold line).forM IO.eprintln
    IO.println (Number.Decimal.ofNat response.status ++ " " ++ response.body.write)
    answerLines api threshold { world with store.journal := [] } input

/-- Serves with some settings. -/
def serve (settings : Settings) (threshold : Nat) : IO Unit := do
  match Time.DateTime.ofSeconds? 0 with
  | none => pure ()
  | some clock =>
    let world : World := ⟨.fresh, fun _ _ _ => .error .outOfRange, [], clock⟩
    let machine : Vendor.Machine := ⟨fun _ => .error .unknown, 1000⟩
    let (started, world) :=
      (Server.start settings (some Server.version) machine fun _ _ => .broken none).run.run world
    match started with
    | .error _ => IO.eprintln "the settings do not allow to serve"
    | .ok server => answerLines server.api threshold world (← IO.getStdin)

/-- What is said about a command that cannot start. -/
def failureText : CommandLine.Failure → String
  | .settings .unreadable => "a list in the settings is no JSON"
  | .settings (.invalid problems) => String.intercalate "\n" (problems.map fun problem =>
      problem.cause.name ++ ((problem.message?.map (": " ++ ·)).getD ""))
  | .unknownLevel name => CommandLine.levelMessage name

end RateLedger.Program

/-- Runs the command that the arguments name. -/
def main (arguments : List String) : IO UInt32 := do
  let environment ← Program.readEnvironment
  let tree ← Program.readTree environment
  let place : CommandLine.Workplace := ⟨(← IO.currentDir).toString, tree, environment⟩
  let outcome := place.run arguments
  outcome.printed.forM IO.println
  outcome.reported.forM IO.eprintln
  Program.carryOut tree outcome
  if let some serving := outcome.serving then
    Program.serve serving.settings (outcome.threshold.getD 0)
  outcome.closing.forM IO.eprintln
  match outcome.ending with
  | .code code => return code.toUInt32
  | .exit exit => return exit.code.toUInt32
  | .failed failure =>
    IO.eprintln (Program.failureText failure)
    return 1
