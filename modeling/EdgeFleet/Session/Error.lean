import EdgeFleet.Json.Fault

namespace EdgeFleet

/-- Why a session is denied. -/
inductive AuthError
  | missingSession
  | transport (detail : String)
  | remote (message : String)
  | noMatchingUser
  | invalidResponse (reason : Json.Error)
  deriving DecidableEq

namespace AuthError

def message : AuthError → String
  | .missingSession => "session id is missing, authentication denied"
  | .transport detail => "transport failure: " ++ detail
  | .remote text => "directory replied with error: " ++ text
  | .noMatchingUser => "no matching user found"
  | .invalidResponse reason => "invalid response: " ++ reason.message

/-- Whether the same request might succeed when repeated. -/
def isRetriable : AuthError → Bool
  | .transport _ => true
  | _ => false

/-- The status of a response that reports the error. -/
def status : AuthError → Nat
  | .missingSession | .remote _ | .noMatchingUser => 401
  | .invalidResponse _ => 502
  | .transport _ => 503

end AuthError

end EdgeFleet
