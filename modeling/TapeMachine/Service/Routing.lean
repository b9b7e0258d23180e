import TapeMachine.Service.Handler
import TapeMachine.Service.Query

/-!
# Routes

One way to understand requests. A path leads somewhere, and what it leads to has its methods; a path that
leads somewhere only without its trailing slash, or only with one, is redirected. Bodies and parameters are
checked, and the complaints are listed. The pages that describe the service are served from here as well.
-/

namespace TapeMachine.Service

/-- A reply that lists complaints. It tells also what was found, so it can only be written if all
numbers in that are finite. -/
def Answer.invalid (is : List Invalid) : Answer :=
  if is.all (·.found.isFinite) then .reply 422 (.list (is.map Invalid.toValue)) else .unwritable

/-- A reply of one sentence. -/
def Answer.detail (status : Nat) (words : String) : Answer :=
  .reply status (.table [("detail", .text words)])

/-- What a path leads to. -/
inductive Route where
  | run
  | validate
  | save
  | scripts
  | script (id : String)
  | stats
  /-- A page that describes the service. -/
  | documentation
  deriving DecidableEq, Repr

namespace Route

/-- A name without the line feed at its end. -/
def chomp (name : List Char) : List Char :=
  if name.getLast? = some '\n' then name.dropLast else name

/-- The route of the pieces of a path. One line feed may end a path. -/
def ofPieces? : List (List Char) → Option Route
  | [[], name] =>
    let name := chomp name
    if name = "run".toList then some .run
    else if name = "validate".toList then some .validate
    else if name = "save".toList then some .save
    else if name = "scripts".toList then some .scripts
    else if name = "stats".toList then some .stats
    else if name ∈ ["docs".toList, "redoc".toList, "openapi.json".toList] then some .documentation
    else none
  | [[], name, id] =>
    if name = "scripts".toList ∧ id ≠ [] then some (.script (String.ofList id))
    else if name = "docs".toList ∧ chomp id = "oauth2-redirect".toList then some .documentation
    else none
  | _ => none

/-- The route of a path. -/
def ofPath? (path : String) : Option Route := ofPieces? (Text.pieces '/' path.toList)

/-- The methods of a route. -/
def methods : Route → List String
  | .run | .validate | .save => ["POST"]
  | .scripts | .script _ | .stats => ["GET"]
  | .documentation => ["GET", "HEAD"]

end Route

/-- The same path with its trailing slashes taken away, or with one added if it has none. -/
def otherSlash (path : String) : String :=
  match path.toList.reverse with
  | '/' :: cs => String.ofList (cs.dropWhile (· = '/')).reverse
  | _ => path ++ "/"

/-! ### Reading -/

/-- The script that a query names. -/
def queriedScript (query : String) : Except (List Invalid) (Option Int) :=
  match Query.value? query "script_id" with
  | none => .ok none
  | some text => (readParameter "query" text).map some

/-- What a request asks for whose route and method are known. -/
def Route.demand (r : Request) : Route → Except Answer Demand
  | .run => ((RunRequest.ofBody r.body).map .run).mapError .invalid
  | .validate => ((ValidateRequest.ofBody r.body).map .validate).mapError .invalid
  | .save => ((SaveRequest.ofBody r.body).map .save).mapError .invalid
  | .scripts => .ok .scripts
  | .script id => ((readParameter "path" id).map .script).mapError .invalid
  | .stats => ((queriedScript r.query).map .stats).mapError .invalid
  | .documentation => .error .page

/-- What a request asks for. -/
def Request.demand (r : Request) : Except Answer Demand :=
  match Route.ofPath? r.path with
  | some route =>
    if r.method ∈ route.methods then route.demand r else .error (.detail 405 "Method Not Allowed")
  | none =>
    if r.path ≠ "/" ∧ (Route.ofPath? (otherSlash r.path)).isSome then .error (.reply 307 .null)
    else .error (.detail 404 "Not Found")

/-- The host with these routes. -/
def Host.usual : Host := ⟨.usual, Request.demand⟩

end TapeMachine.Service
