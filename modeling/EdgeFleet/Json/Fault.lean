import EdgeFleet.Json.Printer
import EdgeFleet.Text.Numeral

namespace EdgeFleet.Json

/-- The kind of value that a reader met. -/
inductive Found
  | null
  | bool (b : Bool)
  | number (n : Number)
  | text (s : String)
  | sequence
  | map
  deriving DecidableEq

/-- Why a text is refused. -/
inductive Cause
  | endInList
  | endInObject
  | endInText
  | endInValue
  | expectedColon
  | expectedListCommaOrEnd
  | expectedObjectCommaOrEnd
  | expectedIdent
  | expectedValue
  | invalidEscape
  | invalidNumber
  | numberOutOfRange
  | controlCharacter
  | nameNotText
  | loneSurrogate
  | trailingComma
  | trailingCharacters
  | endOfHexEscape
  | tooDeep
  | wrongType (found : Found) (expected : String)
  | wrongInteger (n : Int) (expected : String)
  | wrongLength (n : Nat) (expected : String)
  | missingMember (name : String)
  | duplicateMember (name : String)
  | unknownChoice (name : String) (known : List String)
  | refused (reason : String)
  deriving DecidableEq

/-- What was met, in words. -/
def Found.describe : Found → String
  | .null => "null"
  | .bool b => "boolean `" ++ Text.describeBool b ++ "`"
  | .number (.integer n) => "integer `" ++ String.ofList (integerChars n) ++ "`"
  | .number (.real x) => "floating point `" ++ String.ofList (realChars x) ++ "`"
  | .text s => "string " ++ Text.quoted s
  | .sequence => "sequence"
  | .map => "map"

/-- Whether the text is well-formed up to the fault and merely has another shape. -/
def Cause.isMismatch : Cause → Bool
  | .wrongType .. | .wrongInteger .. | .wrongLength .. | .missingMember _ | .duplicateMember _
  | .unknownChoice .. | .refused _ => true
  | _ => false

def Cause.describe : Cause → String
  | .endInList => "EOF while parsing a list"
  | .endInObject => "EOF while parsing an object"
  | .endInText => "EOF while parsing a string"
  | .endInValue => "EOF while parsing a value"
  | .expectedColon => "expected `:`"
  | .expectedListCommaOrEnd => "expected `,` or `]`"
  | .expectedObjectCommaOrEnd => "expected `,` or `\x7d`"
  | .expectedIdent => "expected ident"
  | .expectedValue => "expected value"
  | .invalidEscape => "invalid escape"
  | .invalidNumber => "invalid number"
  | .numberOutOfRange => "number out of range"
  | .controlCharacter => "control character (\\u0000-\\u001F) found while parsing a string"
  | .nameNotText => "key must be a string"
  | .loneSurrogate => "lone leading surrogate in hex escape"
  | .trailingComma => "trailing comma"
  | .trailingCharacters => "trailing characters"
  | .endOfHexEscape => "unexpected end of hex escape"
  | .tooDeep => "recursion limit exceeded"
  | .wrongType found expected => "invalid type: " ++ found.describe ++ ", expected " ++ expected
  | .wrongInteger n expected =>
    "invalid value: integer `" ++ String.ofList (integerChars n) ++ "`, expected " ++ expected
  | .wrongLength n expected =>
    "invalid length " ++ Text.decimal n ++ ", expected " ++ expected
  | .missingMember name => "missing field `" ++ name ++ "`"
  | .duplicateMember name => "duplicate field `" ++ name ++ "`"
  | .unknownChoice name known =>
    "unknown variant `" ++ name ++ "`, expected one of " ++
      ", ".intercalate (known.map fun k => "`" ++ k ++ "`")
  | .refused reason => reason

/-- A place in a text: so many octets after the start of what was left to read. -/
structure Place where
  rest : List Char
  octets : Nat
  deriving DecidableEq

/-- A fault while reading. A mismatch inside an array or object has no place until its end is
looked for. -/
structure Fault where
  cause : Cause
  place : Option Place
  deriving DecidableEq

/-- The fault at the start of `rest`, unless it has a place already. -/
def Fault.placedAt (f : Fault) (rest : List Char) : Fault :=
  ⟨f.cause, f.place.getD ⟨rest, 0⟩⟩

/-- A line and a column, counted in octets from the line's start. -/
structure Position where
  line : Nat
  column : Nat
  deriving DecidableEq

def Position.step (p : Position) (c : Char) : Position :=
  if c = '\n' then ⟨p.line + 1, 0⟩ else ⟨p.line, p.column + c.utf8Size⟩

/-- The position after some octets, which may end inside a character. -/
def Position.advance (p : Position) : Nat → List Char → Position
  | 0, _ => p
  | _, [] => p
  | n, c :: rest =>
    if c.utf8Size ≤ n then (p.step c).advance (n - c.utf8Size) rest
    else ⟨p.line, p.column + n⟩

/-- The position of a place in the text whose end it knows. -/
def Place.position (p : Place) (text : List Char) : Position :=
  let before := (text.take (text.length - p.rest.length)).foldl Position.step ⟨1, 0⟩
  before.advance p.octets p.rest

/-- Why a whole text was refused. -/
structure Error where
  cause : Cause
  position : Option Position
  deriving DecidableEq

/-- The fault with its position in the whole text. -/
def Fault.inText (f : Fault) (text : List Char) : Error :=
  ⟨f.cause, f.place.map (·.position text)⟩

def Error.message (e : Error) : String :=
  match e.position with
  | none => e.cause.describe
  | some p =>
    e.cause.describe ++ " at line " ++ Text.decimal p.line ++ " column " ++
      Text.decimal p.column

end EdgeFleet.Json
