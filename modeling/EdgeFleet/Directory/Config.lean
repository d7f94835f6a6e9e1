import EdgeFleet.Text.Blank
import EdgeFleet.Text.Numeral
import EdgeFleet.Text.Quoted

namespace EdgeFleet.Directory

/-- The parameters of the directory's account. -/
structure Config where
  url : String := "http://localhost:8069"
  database : String := "odoo"
  uid : UInt32 := 1
  password : String := ""
  timeoutSeconds : Nat := 5
  deriving DecidableEq

/-- What a diagnostic shows in place of a password. -/
def maskPassword (password : String) : String :=
  Text.quoted (if password = "" then "NOT_SET" else "ok")

namespace Config

/-- The address that calls are posted to. -/
def callUrl (c : Config) : String :=
  Text.dropTrailing '/' c.url ++ "/jsonrpc"

/-- The parameters in a diagnostic, without the password. -/
def describe (c : Config) : String :=
  Text.describeRecord "DirectoryConfig"
    [("url", Text.quoted c.url), ("database", Text.quoted c.database),
      ("uid", Text.decimal c.uid.toNat), ("password", maskPassword c.password),
      ("timeout_seconds", Text.decimal c.timeoutSeconds)] false

end Config

end EdgeFleet.Directory
