import EdgeFleet.Http.Target
import EdgeFleet.Http.Token
import EdgeFleet.Json.Printer

namespace EdgeFleet.Http

/-- A request. -/
structure Request where
  method : String
  target : String
  contentType : Option String
  body : String

namespace Request

/-- Whether the character may stand in the value of a header. -/
def isHeaderChar (c : Char) : Bool :=
  c == '\t' || (0x20 ≤ c.toNat && c.toNat != 0x7F)

/-- The path of a well-formed request: the method is a token, the target has a form that a request
allows, and the content type holds no control character. -/
def path? (r : Request) : Option String :=
  if isToken r.method.toList && (r.contentType.getD "").toList.all isHeaderChar then
    match targetPath? (Text.Utf8.encode r.target) with
    | some path => Text.Utf8.decode? path
    | none => none
  else none

end Request

/-- The body of a response. -/
inductive Body
  | empty
  | plain (text : String)
  | json (value : Json)

def Body.sent : Body → String
  | .empty => ""
  | .plain text => text
  | .json value => value.compact

/-- A response; `allow` names the methods in place of the one that was refused. -/
structure Response where
  status : Nat
  allow : Option String := none
  body : Body := .empty

/-- The response without its body. -/
def Response.headOnly (r : Response) : Response := { r with body := .empty }

end EdgeFleet.Http
