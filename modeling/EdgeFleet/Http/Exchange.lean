import EdgeFleet.Json.Shape
import EdgeFleet.Http.Status
import EdgeFleet.Text.Utf8

namespace EdgeFleet.Http

/-- A posted JSON value, with its address and the pairs of the query that belongs to it. -/
structure Outgoing where
  url : String
  query : List (String × String)
  body : Json

/-- A response: its status and the octets of its body. -/
structure Reply where
  status : Nat
  body : List UInt8

/-- How a posted value is answered: a response, or why there is none. -/
abbrev Exchange := Outgoing → Except String Reply

/-- What stands in a JSON text for octets that are not UTF-8. A text that nobody asked for is passed
over with it, but where a text is read, half of a pair is no character. -/
def unread : List Char := ['?', '\\', 'u', 'D', 'C', '0', '0']

def Reply.chars (r : Reply) : List Char :=
  match Text.Utf8.decode? r.body with
  | some text => text.toList
  | none => Text.Utf8.markedFrom unread none r.body

/-- Reads the body as JSON of a known shape. -/
def Reply.decode (r : Reply) (shape : Json.Reader α) : Except String α :=
  match shape.run r.chars with
  | .ok a => .ok a
  | .error e => .error e.message

end EdgeFleet.Http
