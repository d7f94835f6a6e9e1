import EdgeFleet.Http.Exchange
import EdgeFleet.Session.Config
import EdgeFleet.Session.Info

namespace EdgeFleet.Session

def Config.request (c : Config) (session : String) : Http.Outgoing where
  url := c.infoUrl
  query := [("session_id", session)]
  body := .object []

def outcome : Except String Http.Reply → Except AuthError SessionInfo
  | .error detail => .error (.transport ("request failed: " ++ detail))
  | .ok reply =>
    if Http.isSuccess reply.status then SessionInfo.parse (Text.Utf8.lossy reply.body)
    else .error (.transport ("HTTP " ++ Http.describeStatus reply.status))

/-- Who a session belongs to, asked over HTTP. -/
def Config.authenticate (c : Config) (exchange : Http.Exchange) (session : String) :
    Except AuthError SessionInfo :=
  if session = "" then .error .missingSession else outcome (exchange (c.request session))

theorem Config.authenticate_empty (c : Config) (exchange : Http.Exchange) :
    c.authenticate exchange "" = .error .missingSession := rfl

/-- Sessions kept in memory: the response to each, and how often they were asked for. -/
structure Memory where
  responses : List (String × String) := []
  lookups : Nat := 0

namespace Memory

/-- Answers a session with a response from now on. -/
def respond (m : Memory) (session body : String) : Memory :=
  { m with responses := Ordered.insert session body m.responses }

/-- Who a session belongs to; an unknown one is denied. -/
def authenticate (m : Memory) (session : String) : Memory × Except AuthError SessionInfo :=
  if session = "" then (m, .error .missingSession)
  else
    let result := match Ordered.get? session m.responses with
      | some body => SessionInfo.parse body
      | none => .error (.remote "session not found")
    ({ m with lookups := m.lookups + 1 }, result)

theorem authenticate_empty (m : Memory) : m.authenticate "" = (m, .error .missingSession) := rfl

end Memory

end EdgeFleet.Session
