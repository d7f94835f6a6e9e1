import EdgeFleet.Text.Blank
import EdgeFleet.Text.Numeral
import EdgeFleet.Text.Quoted

namespace EdgeFleet.Session

/-- The parameters of the service that confirms sessions. -/
structure Config where
  baseUrl : String := "http://localhost:8069"
  infoPath : String := "/openems_backend/info"
  timeoutSeconds : Nat := 5
  deriving DecidableEq

namespace Config

def infoUrl (c : Config) : String :=
  Text.dropTrailing '/' c.baseUrl ++ "/" ++ Text.dropLeading '/' c.infoPath

def describe (c : Config) : String :=
  Text.describeRecord "AuthConfig"
    [("base_url", Text.quoted c.baseUrl), ("info_path", Text.quoted c.infoPath),
      ("timeout_seconds", Text.decimal c.timeoutSeconds)] false

end Config

end EdgeFleet.Session
