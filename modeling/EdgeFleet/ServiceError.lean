import EdgeFleet.Directory.Error
import EdgeFleet.Session.Error

namespace EdgeFleet

/-- Why a call to the service failed. -/
inductive ServiceError
  | auth (reason : AuthError)
  | directory (reason : DirectoryError)
  | parse (detail : String)
  deriving DecidableEq

namespace ServiceError

def message : ServiceError → String
  | .auth reason => "authentication failed: " ++ reason.message
  | .directory reason => "directory error: " ++ reason.message
  | .parse detail => "parse error: " ++ detail

/-- The status of a response that reports the error. -/
def status : ServiceError → Nat
  | .auth reason => reason.status
  | .directory (.notFound _) => 404
  | .directory (.transport _) => 503
  | .directory _ | .parse _ => 502

end ServiceError

/-- Why a request is not answered with what it asks for. -/
inductive ApiError
  | badRequest (detail : String)
  | notFound (detail : String)
  | service (reason : ServiceError)
  deriving DecidableEq

namespace ApiError

def message : ApiError → String
  | .badRequest detail => "bad request: " ++ detail
  | .notFound detail => "not found: " ++ detail
  | .service reason => reason.message

def status : ApiError → Nat
  | .badRequest _ => 400
  | .notFound _ => 404
  | .service reason => reason.status

/-- The kind of the error, for programs. -/
def code : ApiError → String
  | .badRequest _ => "bad_request"
  | .notFound _ => "not_found"
  | .service (.auth _) => "unauthorized"
  | .service _ => "directory_error"

def toJson (e : ApiError) : Json :=
  .ofMembers
    [("error", .ofMembers [("code", .text e.code), ("message", .text e.message)])]

end ApiError

end EdgeFleet
