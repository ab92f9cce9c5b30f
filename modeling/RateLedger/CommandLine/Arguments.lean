import RateLedger.Text.Digit

/-!
# Arguments

The arguments name a command: to clean, to serve, or to write a settings file; without arguments the
program serves. A flag for help ends the reading at once, and so does a word that is no command
where one is expected; other flags and words are found wrong at the end.
-/

namespace RateLedger.CommandLine

/-- The commands. -/
inductive Command
  | clean
  | serve
  | configure
  /-- A command that needs another word. -/
  | incomplete
  deriving DecidableEq, Repr

/-- How far the arguments are read. -/
inductive Stage
  | start
  /-- After the word for serving. -/
  | server
  /-- After a whole command. -/
  | whole (command : Command)
  deriving DecidableEq, Repr

/-- The command if no more words come. -/
def Stage.command : Stage → Command
  | .start => .serve
  | .server => .incomplete
  | .whole command => command

/-- The stage after a word, where one can come. -/
def Stage.next? : Stage → String → Option Stage
  | .start, "server" => some .server
  | .start, "clean" => some (.whole .clean)
  | .server, "run" => some (.whole .serve)
  | .server, "config" => some (.whole .configure)
  | _, _ => none

/-- Whether a text behind a hyphen is a number, which is a word and no flag. -/
def isNumber (chars : List Char) : Bool :=
  let whole := chars.takeWhile Text.Digit.isDigit
  match chars.dropWhile Text.Digit.isDigit with
  | [] => !whole.isEmpty
  | '.' :: fraction => !fraction.isEmpty && fraction.all Text.Digit.isDigit
  | _ => false

/-- What an argument may be. -/
inductive Kind
  | word
  | flag
  | help
  /-- A flag for help with a value, or a mark that takes the place of a word. -/
  | misused
  deriving DecidableEq, Repr

/-- What an argument is that does not ask for help. -/
def plainKind : List Char → Kind
  | '-' :: c :: rest => if isNumber (c :: rest) || rest.contains ' ' then .word else .flag
  | _ => .word

/-- What an argument is. The long flag for help may be cut short, the short one may stand in front
of other flags, and neither takes a value. -/
def kind (argument : String) : Kind :=
  match argument.toList with
  | ['-', '-'] => .misused
  | '-' :: '-' :: rest =>
    let name := rest.takeWhile (· != '=')
    if !name.isPrefixOf "help".toList then plainKind argument.toList
    else if name.length = rest.length then .help
    else .misused
  | '-' :: 'h' :: rest =>
    match rest.dropWhile (· == 'h') with
    | '=' :: _ => .misused
    | '-' :: _ => .misused
    | _ => .help
  | chars => plainKind chars

/-- Why the arguments name no command. -/
inductive Exit
  | help
  | wrong
  deriving DecidableEq, Repr

/-- The number that the program ends with. -/
def Exit.code : Exit → Nat
  | .help => 0
  | .wrong => 2

/-- Reads arguments from a stage on; `isWrong` says that something wrong came before. -/
def readFrom (stage : Stage) (isWrong : Bool) : List String → Except Exit Command
  | [] => if isWrong then .error .wrong else .ok stage.command
  | argument :: rest =>
    match kind argument with
    | .help => .error .help
    | .misused => .error .wrong
    | .flag => readFrom stage true rest
    | .word =>
      match stage with
      | .whole _ => readFrom stage true rest
      | _ =>
        match stage.next? argument with
        | some stage => readFrom stage isWrong rest
        | none => .error .wrong

/-- Reads the arguments. -/
def read (arguments : List String) : Except Exit Command := readFrom .start false arguments

end RateLedger.CommandLine
