import EdgeFleet.EdgeState
import EdgeFleet.RecordId
import EdgeFleet.Role

namespace EdgeFleet

/-- Why a text is no identifier, no state or no role. -/
inductive ValueError
  | invalidId (reason : IdError)
  | unknownState (text : String)
  | unknownRole (text : String)
  deriving DecidableEq

def ValueError.message : ValueError → String
  | .invalidId reason => "invalid identifier: " ++ reason.message
  | .unknownState text => "unknown edge state: " ++ text
  | .unknownRole text => "unknown role: " ++ text

def EdgeState.parse (s : String) : Except ValueError EdgeState :=
  match EdgeState.parse? s with
  | some state => .ok state
  | none => .error (.unknownState s)

def Role.parse (s : String) : Except ValueError Role :=
  match Role.parse? s with
  | some role => .ok role
  | none => .error (.unknownRole s)

end EdgeFleet
