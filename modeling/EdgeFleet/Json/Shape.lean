import EdgeFleet.Json.Parser

/-! Reading values of a known shape straight from a text, where the first thing that does not fit is the one
reported. A record is written as an object, in which unknown members are passed over and a known one may
stand once, or as an array of its members in order. -/
namespace EdgeFleet.Json.Reader

/-- Fails because the next value is not what was expected, unless the value itself is at fault. -/
def unexpected (expected : String) : Reader α := do
  match ← peek with
  | none => fail .expectedValue
  | some c =>
    if c = 'n' then do skip; word ['u', 'l', 'l']; failHere (.wrongType .null expected)
    else if c = 't' then do skip; word ['r', 'u', 'e']; failHere (.wrongType (.bool true) expected)
    else if c = 'f' then do
      skip; word ['a', 'l', 's', 'e']; failHere (.wrongType (.bool false) expected)
    else if c = '-' ∨ Text.Numeral.isDigit c then do
      failHere (.wrongType (.number (← number)) expected)
    else if c = '"' then do failHere (.wrongType (.text (← quotedText)) expected)
    else if c = '[' then failHere (.wrongType .sequence expected)
    else if c = '{' then failHere (.wrongType .map expected)
    else fail .expectedValue

def text : Reader String := do
  match ← peekPart with
  | none => fail .endInValue
  | some c => if c = '"' then quotedText else unexpected "a string"

/-- An integer from `low` to `high`; `expected` names its type. -/
def integer (low high : Int) (expected : String) : Reader Int := do
  match ← peekPart with
  | none => fail .endInValue
  | some c =>
    if c = '-' ∨ Text.Numeral.isDigit c then do
      match ← number with
      | .integer n =>
        if low ≤ n ∧ n ≤ high then return n else failHere (.wrongInteger n expected)
      | .real x => failHere (.wrongType (.number (.real x)) expected)
    else unexpected expected

def word32 : Reader UInt32 := do
  return (← integer 0 0xFFFFFFFF "u32").toNat.toUInt32

def word64 (expected : String) : Reader Nat := do
  return (← integer 0 maxInteger expected).toNat

def nullable (r : Reader α) : Reader (Option α) := do
  if (← peekPart) = some 'n' then do skip; word ['u', 'l', 'l']; return none
  else return some (← r)

def listOf (item : Reader α) : Reader (List α) := do
  match ← peekPart with
  | none => fail .endInValue
  | some c =>
    if c = '[' then do skip; enclosed (items item) endItems else unexpected "a sequence"

/-- A member that a record knows: its name, whether an array may end before it, and how its value
goes into a draft. -/
structure Member (σ : Type) where
  name : String
  optional : Bool
  read : Reader (σ → σ)

/-- A member whose value is read by `r` and put into the draft by `put`. -/
def Member.of (name : String) (optional : Bool) (r : Reader α) (put : α → σ → σ) : Member σ where
  name
  optional
  read := put <$> r

/-- Puts a member of an object into the draft, beside the names seen so far. -/
def recordMember (known : List (Member σ)) (draft : List String × σ) (name : String) :
    Reader (List String × σ) := do
  match known.find? (·.name == name) with
  | none =>
    colon
    passValue
    return draft
  | some m =>
    if name ∈ draft.1 then mismatch (.duplicateMember name)
    else
      colon
      return (name :: draft.1, (← m.read) draft.2)

/-- Puts the items of an array into the draft in the order of the members; `index` counts them. -/
def recordItems (expected : String) : List (Member σ) → Nat → σ → Reader σ
  | [], _, draft => pure draft
  | m :: rest, index, draft => do
    if ← hasNextItem (index == 0) then
      recordItems expected rest (index + 1) ((← m.read) draft)
    else if m.optional then recordItems expected rest index draft
    else mismatch (.wrongLength index expected)

/-- What an array of a record's members should be. -/
def arrayForm (title : String) (count : Nat) : String :=
  "struct " ++ title ++ " with " ++
    (if count = 1 then "1 element" else Text.decimal count ++ " elements")

/-- A record, from a draft that `finish` completes unless it names a member that is missing. -/
def record (title : String) (known : List (Member σ)) (draft : σ)
    (finish : σ → Except String α) : Reader α := do
  let complete (draft : σ) : Reader α :=
    match finish draft with
    | .ok a => pure a
    | .error name => mismatch (.missingMember name)
  match ← peekPart with
  | none => fail .endInValue
  | some c =>
    if c = '[' then do
      skip
      enclosed (do complete (← recordItems (arrayForm title known.length) known 0 draft)) endItems
    else if c = '{' then do
      skip
      enclosed (do complete (← members (recordMember known) ([], draft)).2) endMembers
    else unexpected ("struct " ++ title)

/-- One of several named choices: its name, or an object with the name and null. -/
def choice (known : List (String × α)) : Reader α := do
  let named (name : String) : Reader α :=
    match known.find? (·.1 == name) with
    | some (_, a) => pure a
    | none => mismatch (.unknownChoice name (known.map (·.1)))
  match ← peekPart with
  | none => fail .endInValue
  | some c =>
    if c = '"' then do named (← quotedText)
    else if c = '{' then do
      skip
      let a ← named (← text)
      colon
      if (← peekPart) = some 'n' then do skip; word ['u', 'l', 'l'] else unexpected "unit"
      match ← peekPart with
      | none => failHere .endInObject
      | some d => if d = '}' then do skip; return a else failHere .expectedValue
    else fail .expectedValue

end EdgeFleet.Json.Reader
