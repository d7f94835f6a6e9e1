import EdgeFleet.Edge.Basic
import EdgeFleet.Http.MediaType
import EdgeFleet.Http.Message
import EdgeFleet.ServiceError
import EdgeFleet.Text.Percent
import EdgeFleet.User

/-! The service over HTTP: the path and the method of a request are looked at first, then the content type,
then the body. A request that asks for nothing is answered without the service. -/
namespace EdgeFleet.Http

/-- The version that a health check reports. -/
def version : String := "0.1.0"

/-- A resource of the service. -/
inductive Resource
  | health
  | ready
  | sessions
  | edge (segment : String)
  | user (segment : String)
  | apikeys
  deriving DecidableEq

/-- The last segment of a path behind `start`, which is neither empty nor divided. -/
def segmentAfter? (start path : String) : Option String :=
  let cs := path.toList
  if start.toList.isPrefixOf cs then
    let segment := cs.drop start.length
    if segment ≠ [] && !segment.contains '/' then some (String.ofList segment) else none
  else none

def Resource.ofPath? (path : String) : Option Resource :=
  if path = "/health" then some .health
  else if path = "/ready" then some .ready
  else if path = "/v1/sessions" then some .sessions
  else if path = "/v1/apikeys/resolve" then some .apikeys
  else match segmentAfter? "/v1/edges/" path with
    | some segment => some (.edge segment)
    | none => (segmentAfter? "/v1/users/" path).map .user

/-- Whether the resource is read; the others take a body. -/
def Resource.isRead : Resource → Bool
  | .sessions | .apikeys => false
  | _ => true

/-- What a request asks the service for. -/
inductive Question
  | edge (id : EdgeId)
  | user (id : UserId)
  | login (session : Option String)
  | resolve (apikey : String)
  deriving DecidableEq

def jsonResponse (status : Nat) (value : Json) : Response where
  status
  body := .json value

def errorResponse (e : ApiError) : Response :=
  jsonResponse e.status e.toJson

/-- The question for a record whose identifier is a segment of the path. -/
def identified {kind : RecordKind} (noun segment : String) (question : RecordId kind → Question) :
    Except Response Question :=
  match Text.Percent.decode? segment with
  | none => .error { status := 400 }
  | some text =>
    match RecordId.parse text with
    | .ok id => .ok (question id)
    | .error e =>
      .error (errorResponse (.badRequest ("invalid " ++ noun ++ " id: " ++ e.message)))

/-- Whether the characters of a content type can be shown and name JSON. -/
def isJsonContent (contentType : Option String) : Bool :=
  match contentType with
  | none => false
  | some s => s.toList.all (·.toNat < 0x7F) && ((MediaType.parse? s).map (·.isJson)).getD false

/-- Reads the body of a request. Text behind the value is ignored. -/
def readBody (r : Request) (shape : Json.Reader α) : Except Response α :=
  if !isJsonContent r.contentType then .error { status := 415 }
  else match shape.runStart r.body.toList with
    | .ok a => .ok a
    | .error e => .error { status := if e.cause.isMismatch then 422 else 400 }

/-- Reads the body of a login. -/
def sessionReader : Json.Reader (Option String) :=
  Json.Reader.record "SessionRequest"
    [.of "session_id" true (Json.Reader.nullable Json.Reader.text) fun s _ => s] none .ok

/-- Reads the body of a question for an API key. -/
def apikeyReader : Json.Reader String :=
  Json.Reader.record "ApikeyRequest"
    [.of "apikey" false Json.Reader.text fun s _ => some s] none
    fun s => match s with
      | some s => .ok s
      | none => .error "apikey"

/-- What a request for a resource asks, or the response that needs no service. -/
def Resource.question (r : Request) : Resource → Except Response Question
  | .health =>
    .error (jsonResponse 200
      (.ofMembers [("status", .text "healthy"), ("version", .text version)]))
  | .ready => .error { status := 200, body := .plain "ready" }
  | .edge segment => identified "edge" segment .edge
  | .user segment => identified "user" segment .user
  | .sessions => .login <$> readBody r sessionReader
  | .apikeys => .resolve <$> readBody r apikeyReader

/-- What a request asks for, and whether only the head of the response is wanted. -/
structure Task where
  question : Except Response Question
  headOnly : Bool

/-- The task of a well-formed request with this path. -/
def Request.task (r : Request) (path : String) : Task :=
  match Resource.ofPath? path with
  | none => ⟨.error { status := 404 }, false⟩
  | some resource =>
    if resource.isRead then
      if r.method = "GET" then ⟨resource.question r, false⟩
      else if r.method = "HEAD" then ⟨resource.question r, true⟩
      else ⟨.error { status := 405, allow := some "GET,HEAD" }, false⟩
    else if r.method = "POST" then ⟨resource.question r, false⟩
    else ⟨.error { status := 405, allow := some "POST" }, false⟩

def edgeResponse (id : EdgeId) : Option Edge → Response
  | some e => jsonResponse 200 e.toJson
  | none => errorResponse (.notFound ("edge " ++ id.render))

def userResponse (id : UserId) : Option User → Response
  | some u => jsonResponse 200 u.toJson
  | none => errorResponse (.notFound ("user " ++ id.render))

def loginResponse : Except ServiceError User → Response
  | .ok u => jsonResponse 200 u.toJson
  | .error e => errorResponse (.service e)

/-- The response to the question for an API key. -/
def resolveResponse (ids : List EdgeId) : Response :=
  jsonResponse 200 (.ofMembers [("edge_ids", .array (ids.map (·.toJson)))])

/-- The response to a request that took too long. -/
def timeoutResponse : Response := { status := 408 }

end EdgeFleet.Http
