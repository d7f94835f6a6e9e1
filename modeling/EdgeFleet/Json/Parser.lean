import EdgeFleet.Json.Reader

/-! Reading JSON values. A value nests at most 127 deep and its texts and numbers are checked; a value that
nobody asked for is passed over, at any depth, and only its form is checked. -/
namespace EdgeFleet.Json.Reader

/-- A value, given how to read the contents of an array and of an object behind their brackets. -/
def valueWith (array : Reader (List Json)) (object : Reader Members) : Reader Json := do
  match ← peekPart with
  | none => fail .endInValue
  | some c =>
    if c = 'n' then do skip; word ['u', 'l', 'l']; return .null
    else if c = 't' then do skip; word ['r', 'u', 'e']; return .bool true
    else if c = 'f' then do skip; word ['a', 'l', 's', 'e']; return .bool false
    else if c = '-' ∨ Text.Numeral.isDigit c then return .number (← number)
    else if c = '"' then return .text (← quotedText)
    else if c = '[' then return .array (← array)
    else if c = '{' then return .object (← object)
    else fail .expectedValue

/-- Reads a member into an object; a repeated name keeps its last value. -/
def member (value : Reader Json) (members : Members) (name : String) : Reader Members := do
  colon
  return Ordered.insert name (← value) members

/-- A value that nests at most `room` deep. -/
def value : Nat → Reader Json
  | 0 => valueWith (fail .tooDeep) (fail .tooDeep)
  | room + 1 =>
    valueWith (do skip; enclosed (items (value room)) endItems)
      (do skip; enclosed (members (member (value room)) []) endMembers)

/-- How deep a value may nest. -/
def maxDepth : Nat := 127

/-- A bracket that has not been closed yet. -/
inductive Bracket
  | array
  | object
  deriving DecidableEq

/-- Passes the rest of a text whose opening quote has been passed. Escapes are checked one by one,
pairs of them are not. -/
def passTextFrom : List Char → EStateM.Result Fault (List Char) Unit
  | '\\' :: 'u' :: a :: b :: c :: d :: rest =>
    match hexUnit? a b c d with
    | none => .error (hexFault (a :: b :: c :: d :: rest)) rest
    | some _ => passTextFrom rest
  | '\\' :: 'u' :: rest => .error (hexFault rest) rest
  | '\\' :: c :: rest =>
    match escaped? c with
    | some _ => passTextFrom rest
    | none => .error ⟨.invalidEscape, some ⟨c :: rest, 1⟩⟩ rest
  | '\\' :: [] => .error ⟨.endInText, some ⟨[], 0⟩⟩ []
  | c :: rest =>
    if c = '"' then .ok () rest
    else if c.toNat < 0x20 then .error ⟨.controlCharacter, some ⟨c :: rest, 0⟩⟩ rest
    else passTextFrom rest
  | [] => .error ⟨.endInText, some ⟨[], 0⟩⟩ []

/-- Passes a value that is no array and no object. -/
def passScalar (c : Char) : Reader Unit :=
  if c = 'n' then do skip; word ['u', 'l', 'l']
  else if c = 't' then do skip; word ['r', 'u', 'e']
  else if c = 'f' then do skip; word ['a', 'l', 's', 'e']
  else if c = '-' ∨ Text.Numeral.isDigit c then do let _ ← numberText .invalidNumber
  else if c = '"' then do skip; passTextFrom
  else fail .expectedValue

/-- Passes the name of a member and its colon. -/
def passName : Reader Unit := do
  match ← peekPart with
  | none => fail .endInObject
  | some c =>
    if c = '"' then do skip; passTextFrom; colon
    else fail .nameNotText

/-- What follows inside the innermost bracket. -/
inductive Next
  | value
  | closed
  deriving DecidableEq

/-- Passes a comma, if a value has been passed before, or an end bracket. -/
def passBetween (b : Bracket) (afterValue : Bool) : Reader Next := do
  match ← peekPart with
  | none => fail (match b with | .array => .endInList | .object => .endInObject)
  | some c =>
    -- a comma stands only behind a value
    if c = ',' ∧ afterValue then do skip; return .value
    else if c = ']' ∧ b = .array then do skip; return .closed
    else if c = '}' ∧ b = .object then do skip; return .closed
    else if afterValue then
      fail (match b with | .array => .expectedListCommaOrEnd | .object => .expectedObjectCommaOrEnd)
    else return .value

/-- Passes what is left of the open brackets, the innermost first, in at most `fuel` steps. At a
value `between` is nothing; else it says whether a value has been passed in the innermost one. -/
def passFrom : Nat → List Bracket → Option Bool → Reader Unit
  | 0, _, _ => fail .endInValue
  | _ + 1, [], some _ => pure ()
  | fuel + 1, b :: outer, some afterValue => do
    match ← passBetween b afterValue with
    | .closed => passFrom fuel outer (some true)
    | .value =>
      if b = .object then passName
      passFrom fuel (b :: outer) none
  | fuel + 1, brackets, none => do
    match ← peekPart with
    | none => fail .endInValue
    | some c =>
      if c = '[' then do skip; passFrom fuel (.array :: brackets) (some false)
      else if c = '{' then do skip; passFrom fuel (.object :: brackets) (some false)
      else do passScalar c; passFrom fuel brackets (some true)

/-- Passes a value that nobody asked for. -/
def passValue : Reader Unit := do
  -- every second step passes a character at least
  passFrom (2 * (← remaining) + 2) [] none

end EdgeFleet.Json.Reader

namespace EdgeFleet.Json

/-- The value that characters show. -/
def parseChars (text : List Char) : Except Error Json :=
  (Reader.value Reader.maxDepth).run text

def parse (text : String) : Except Error Json :=
  parseChars text.toList

end EdgeFleet.Json
