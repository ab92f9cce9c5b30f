import RateLedger.Http.Message
import RateLedger.Json.Document
import RateLedger.Service

/-!
# The HTTP interface

Each route has one method. A route with a slash behind it is the route without it. A failure of the
service becomes a status: what is not found, what the vendor failed with, what the store failed
with and what was refused each has one of its own, and anything else is not handled.
-/

namespace RateLedger.Http

/-- The routes. -/
inductive Route
  | version
  | exchange
  | rates (pairId : String)
  | recent
  | aggregated
  | compact
  deriving DecidableEq, Repr

namespace Route

/-- The method of a route. -/
def method : Route → String
  | .compact => "POST"
  | _ => "GET"

/-- What stands before the name of a route. -/
def base : String := "/v1/"

/-- The route with a name. -/
def named? (name : List Char) : Option Route :=
  match String.ofList name with
  | "version" => some .version
  | "exchange" => some .exchange
  | "recent" => some .recent
  | "aggregated" => some .aggregated
  | "compact" => some .compact
  | _ =>
    let before := "rates/".toList
    let rest := name.drop before.length
    if before.isPrefixOf name && !rest.isEmpty && !rest.contains '/' then
      some (.rates (String.ofList rest))
    else none

/-- The route of a path. -/
def ofPath? (path : String) : Option Route :=
  if base.toList.isPrefixOf path.toList then named? (path.toList.drop base.length) else none

/-- A path without the slashes at its end. -/
def dropEndSlashes (path : String) : String :=
  String.ofList (path.toList.reverse.dropWhile (· == '/')).reverse

/-- The route of a path, with or without slashes at its end, and the path that led to it. -/
def find? (path : String) : Option (Route × String) :=
  match ofPath? path with
  | some route => some (route, path)
  | none =>
    let shorter := dropEndSlashes path
    (ofPath? shorter).map (·, shorter)

end Route

/-- The interface to a service. -/
structure Api where
  service : Service
  /-- The version of the program, if it is known. -/
  version : String

namespace Api

/-- The part of the program that speaks here. -/
def speaker : String := "api.api"

/-- What a failure is answered with on a path. -/
def answerFailure (path : String) : Failure → StateM World Response
  | .store (.notFound pairId) => return .detail 404 (StoreFault.notFound pairId).message
  | .store (.unencodable flaw) => return .detail 400 flaw.message
  | .store fault => do
    if fault.isBackend then
      discard (Action.note .error speaker
        ("Backend failure on " ++ pathPart path ++ ": " ++ fault.message)).run
      return .detail 500 "Internal error"
    else return .unhandled
  | .vendor error => do
    discard (Action.note .error speaker
      ("Vendor request failed for " ++ pathPart path ++ ": " ++ error.fault.message)).run
    return .detail 502 "query alphavantage failed"
  | .refused reason => return .detail 400 reason
  | .invalid problems => return .detail 400 ((problems.findSome? Problem.message?).getD "")
  | .outOfRange | .tooDeep | .zoneUnreadable | .alreadyRunning _ => return .unhandled

/-- What an action is answered with on a path. -/
def answer (path : String) (action : Action Json) : StateM World Response := do
  match ← action.run with
  | .ok body => return ⟨200, body⟩
  | .error failure => answerFailure path failure

/-- The most observations that are given out together. -/
def maxItems : Int := 10000

/-- The action that a route asks for, unless a value of the request cannot be used. -/
def action (api : Api) (request : Request) : Route → Except Problem (Action Json)
  | .version =>
    .ok (return .obj [("oracle_version", .str api.version), ("api_version", .str "v1")])
  | .exchange =>
    let code (name other : String) : String := Text.UpperCase.ofText (request.text name other)
    .ok (Sighting.document <$> api.service.fetch ⟨code "from" "USD", code "to" "CNY"⟩)
  | .rates pairId => .ok (Observation.document <$> Service.newest pairId)
  | .recent => do
    let limit ← request.count "items" 10 (some maxItems)
    return (fun found => .arr (found.map Observation.document)) <$>
      Service.recent (request.text "prefix" "") limit
  | .aggregated =>
    .ok ((fun found => .arr (found.map Observation.document)) <$> api.service.newestOfAll)
  | .compact => do
    let minutes ← request.count "minutes" 60 none
    return (fun count : Nat => .obj [("cleaned", .int count)]) <$> api.service.prune minutes

/-- The body of a response to a value that cannot be used. -/
def problemBody (problem : Problem) : Json :=
  let place := problem.place.map fun
    | .field name => Json.str name
    | .item index => Json.int index
  .arr [.obj [("loc", .arr place), ("type", .str problem.cause.name)]]

/-- Answers a request with a body. -/
def respond (api : Api) (request : Request) : StateM World Response := do
  match Route.find? request.route with
  | none => return .detail 404 "Not Found"
  | some (route, path) =>
    if route.method ≠ request.method then return .detail 405 "Method Not Allowed"
    else
      match api.action request route with
      | .error problem => return ⟨422, problemBody problem⟩
      | .ok action => answer path action

/-- Answers a request; one for the head of a response gets no body. -/
def handle (api : Api) (request : Request) : StateM World Response := do
  let response ← api.respond request
  return if request.method = "HEAD" then { response with body := .str "" } else response

end Api

end RateLedger.Http
