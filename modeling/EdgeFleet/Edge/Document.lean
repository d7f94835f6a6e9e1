import EdgeFleet.Json.Parser
import EdgeFleet.Text.Blank

namespace EdgeFleet

/-- Why a text is no configuration document. -/
inductive DocumentError
  | notAnObject
  | malformed (reason : Json.Error)
  deriving DecidableEq

def DocumentError.message : DocumentError → String
  | .notAnObject => "configuration is not a JSON object"
  | .malformed reason => "invalid configuration: " ++ reason.message

namespace Document

/-- The document that characters show. -/
def parseChars (text : List Char) : Except DocumentError Json.Members :=
  if text.all Text.isBlank then .ok []
  else match Json.parseChars text with
    | .ok (.object members) => .ok members
    | .ok _ => .error .notAnObject
    | .error reason => .error (.malformed reason)

theorem parseChars_of_blank {text : List Char} (h : text.all Text.isBlank = true) :
    parseChars text = .ok [] := by
  simp [parseChars, h]

def parse (text : String) : Except DocumentError Json.Members :=
  parseChars text.toList

end Document

end EdgeFleet
