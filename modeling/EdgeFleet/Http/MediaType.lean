import EdgeFleet.Http.Token
import EdgeFleet.Text.Blank

namespace EdgeFleet.Http

/-- A media type: its type, its subtype before the last plus sign and the suffix behind that. -/
structure MediaType where
  type : String
  subtype : String
  suffix : Option String
  deriving DecidableEq

namespace MediaType

/-- Where a reader of parameters stands: before a name, in one, before a value, in one, in a quoted
one at its start or later, or behind a quoted one. -/
inductive ParameterState
  | beforeName
  | name
  | beforeValue
  | value
  | quoteStart
  | quote
  | behindQuote

/-- Whether the characters are parameters behind a semicolon. -/
def areParameters : ParameterState → List Char → Bool
  | .beforeName, [] => true
  | .name, [] => false
  | .beforeValue, [] => true
  | .value, [] => true
  | .quoteStart, [] => false
  | .quote, [] => false
  | .behindQuote, [] => true
  | .beforeName, c :: rest =>
    if c = ' ' then areParameters .beforeName rest
    else if isTokenChar c then areParameters .name rest
    else false
  | .name, c :: rest =>
    if isTokenChar c then areParameters .name rest
    else if c = '=' then areParameters .beforeValue rest
    else false
  | .beforeValue, c :: rest =>
    if c = '"' then areParameters .quoteStart rest
    else if isTokenChar c then areParameters .value rest
    else false
  | .value, c :: rest =>
    if isTokenChar c then areParameters .value rest
    else if c = ';' then areParameters .beforeName rest
    else false
  | .quoteStart, c :: rest =>
    if 31 < c.toNat && c.toNat != 127 then areParameters .quote rest else false
  | .quote, c :: rest =>
    if c = '"' then areParameters .behindQuote rest
    else if 31 < c.toNat && c.toNat != 127 then areParameters .quote rest
    else false
  | .behindQuote, c :: rest =>
    if c = ';' then areParameters .beforeName rest
    else if c = ' ' then areParameters .behindQuote rest
    else false

/-- A subtype split at its last plus sign, unless that is its first character. -/
def splitSuffix (subtype : List Char) : List Char × Option (List Char) :=
  let suffix := (subtype.reverse.takeWhile (· != '+')).reverse
  let before := subtype.take (subtype.length - suffix.length - 1)
  if suffix.length < subtype.length ∧ before ≠ [] then (before, some suffix) else (subtype, none)

def parse? (s : String) : Option MediaType :=
  let cs := s.toList
  let type := cs.takeWhile isTokenChar
  match cs.drop type.length with
  | '/' :: rest =>
    let subtype := rest.takeWhile isTokenChar
    let (before, suffix) := splitSuffix subtype
    let result : MediaType :=
      { type := Text.lowerAscii (String.ofList type)
        subtype := Text.lowerAscii (String.ofList before)
        suffix := suffix.map fun s => Text.lowerAscii (String.ofList s) }
    if type = [] then none
    else match rest.drop subtype.length with
      | [] => some result
      | ';' :: parameters =>
        if subtype ≠ [] && areParameters .beforeName parameters then some result else none
      | _ => none
  | _ => none

def isJson (m : MediaType) : Bool :=
  m.type == "application" && (m.subtype == "json" || m.suffix == some "json")

end MediaType

end EdgeFleet.Http
