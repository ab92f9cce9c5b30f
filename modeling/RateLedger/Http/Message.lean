import RateLedger.Json.Basic
import RateLedger.Number.Numeral
import RateLedger.Problem
import RateLedger.Text.Percent

/-!
# Requests and responses

A request has a method, a path and named values, of which the last with a name counts. Its path is
taken without its dot segments and without what a question mark or a number sign starts. A response
has a status and a JSON body, where a text stands for itself.
-/

namespace RateLedger.Http

/-- A request. -/
structure Request where
  method : String
  path : String
  query : List (String × String)
  deriving DecidableEq, Repr

/-- A response. -/
structure Response where
  status : Nat
  body : Json
  deriving Repr

/-- The response that explains itself. -/
def Response.detail (status : Nat) (text : String) : Response :=
  ⟨status, .obj [("detail", .str text)]⟩

/-- The response to a request that fails without being handled. -/
def Response.unhandled : Response := ⟨500, .str "Internal Server Error"⟩

/-- The parts of a path between its slashes. -/
def segments (path : String) : List (List Char) := path.toList.splitOn '/'

/-- The segments with the next one, where a dot adds nothing and two dots take one away. -/
def addSegment (before : List (List Char)) (segment : List Char) : List (List Char) :=
  if segment = ['.'] then before
  else if segment = ['.', '.'] then if before = [[]] then before else before.dropLast
  else before ++ [segment]

/-- A path without dot segments. -/
def dropDots (path : String) : String :=
  String.ofList (List.intercalate ['/'] ((segments path).foldl addSegment []))

/-- A text up to a question mark or a number sign. -/
def pathPart (text : String) : String :=
  String.ofList (text.toList.takeWhile fun c => c != '?' && c != '#')

/-- The text that a value in a target stands for, where a plus sign is a space. -/
def formText (chars : List Char) : String :=
  Text.Percent.decode (String.ofList (chars.map fun c => if c = '+' then ' ' else c))

namespace Request

/-- The request for a target, a path with named values behind a question mark. -/
def ofTarget (method target : String) : Request :=
  let pairs := ((target.toList.dropWhile (· != '?')).drop 1).splitOn '&'
  ⟨method, target, (pairs.filter (!·.isEmpty)).map fun pair =>
    (formText (pair.takeWhile (· != '=')), formText ((pair.dropWhile (· != '=')).drop 1))⟩

/-- The path that a request means. -/
def route (request : Request) : String :=
  Text.Percent.decode (dropDots (pathPart request.path))

/-- The last value with a name. -/
def value? (request : Request) (name : String) : Option String :=
  request.query.reverse.lookup name

/-- The last value with a name, or another one if there is none. -/
def text (request : Request) (name other : String) : String := (request.value? name).getD other

/-- The whole number with a name, or another one if there is none. It is neither below zero nor
above a limit. -/
def count (request : Request) (name : String) (other : Int) (limit : Option Int) :
    Except Problem Int :=
  let fail (cause : Cause) : Except Problem Int :=
    .error ⟨[.field "query", .field name], cause⟩
  match request.value? name with
  | none => .ok other
  | some text =>
    match Number.Numeral.whole text with
    | .error .malformed => fail .intParsing
    | .error .tooLong => fail .intParsingSize
    | .ok number =>
      if number < 0 then fail .atLeast
      else if limit.any (· < number) then fail .atMost
      else .ok number

end Request

end RateLedger.Http
