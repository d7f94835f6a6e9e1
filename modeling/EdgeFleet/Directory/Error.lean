import EdgeFleet.Directory.Field
import EdgeFleet.Text.Numeral

namespace EdgeFleet

/-- Why a call to the directory failed. -/
inductive DirectoryError
  | transport (detail : String)
  | remote (code : Int) (message : String)
  | parse (detail : String)
  | notFound (id : UInt32)
  deriving DecidableEq

namespace DirectoryError

def message : DirectoryError → String
  | .transport detail => "transport failure: " ++ detail
  | .remote code text =>
    "directory error " ++ String.ofList (Json.integerChars code) ++ ": " ++ text
  | .parse detail => "parse error: " ++ detail
  | .notFound id =>
    Directory.deviceModel ++ " record " ++ Text.decimal id.toNat ++ " not found"

/-- Whether the same call might succeed when repeated. -/
def isRetriable : DirectoryError → Bool
  | .transport _ => true
  | _ => false

end DirectoryError

end EdgeFleet
