import EdgeFleet.Json.Fault

namespace EdgeFleet.Json

/-- A reader of part of a text. It leaves what it did not read, also when it fails. -/
abbrev Reader := EStateM Fault (List Char)

namespace Reader

/-- Fails at the next octet. -/
def fail (cause : Cause) : Reader α := fun cs =>
  .error ⟨cause, some ⟨cs, 1⟩⟩ cs

/-- Fails behind what has been read. -/
def failHere (cause : Cause) : Reader α := fun cs =>
  .error ⟨cause, some ⟨cs, 0⟩⟩ cs

/-- Fails with a mismatch that has no place yet. -/
def mismatch (cause : Cause) : Reader α := fun cs =>
  .error ⟨cause, none⟩ cs

/-- The next character, which stays. -/
def peek : Reader (Option Char) := fun cs => .ok cs.head? cs

def skip : Reader Unit := fun cs => .ok () cs.tail

def remaining : Reader Nat := fun cs => .ok cs.length cs

/-- Whether the character may stand between the parts of a text. -/
def isSpace (c : Char) : Bool :=
  c == ' ' || c == '\n' || c == '\t' || c == '\r'

/-- The next character that is no space, which stays. -/
def peekPart : Reader (Option Char) := fun cs =>
  let rest := cs.dropWhile isSpace
  .ok rest.head? rest

/-- The digits that come next. -/
def takeDigits : Reader (List Char) := fun cs =>
  .ok (cs.takeWhile Text.Numeral.isDigit) (cs.dropWhile Text.Numeral.isDigit)

/-- The rest of a word whose first letter has been read. -/
def word : List Char → Reader Unit
  | [] => pure ()
  | c :: rest => do
    match ← peek with
    | none => failHere .endInValue
    | some d => if c = d then do skip; word rest else fail .expectedIdent

def hexDigit? (c : Char) : Option Nat :=
  if '0' ≤ c && c ≤ '9' then some (c.toNat - 0x30)
  else if 'a' ≤ c && c ≤ 'f' then some (c.toNat - 0x57)
  else if 'A' ≤ c && c ≤ 'F' then some (c.toNat - 0x37)
  else none

def hexUnit? (a b c d : Char) : Option Nat := do
  let a ← hexDigit? a
  let b ← hexDigit? b
  let c ← hexDigit? c
  let d ← hexDigit? d
  return ((a * 16 + b) * 16 + c) * 16 + d

/-- How many octets some characters take. -/
def octets (cs : List Char) : Nat :=
  cs.foldl (fun n c => n + c.utf8Size) 0

/-- The fault of a text that should have four digits of base sixteen in its next four octets. -/
def hexFault (cs : List Char) : Fault :=
  if octets cs < 4 then ⟨.endInText, some ⟨[], 0⟩⟩
  else ⟨.invalidEscape, some ⟨cs, 4⟩⟩

def escaped? (c : Char) : Option Char :=
  if c = '"' then some '"'
  else if c = '\\' then some '\\'
  else if c = '/' then some '/'
  else if c = 'b' then some '\x08'
  else if c = 'f' then some '\x0c'
  else if c = 'n' then some '\n'
  else if c = 'r' then some '\r'
  else if c = 't' then some '\t'
  else none

/-- Whether the unit is the first of a pair. -/
def isHighUnit (n : Nat) : Bool := 0xD800 ≤ n && n ≤ 0xDBFF

/-- Whether the unit is the second of a pair. -/
def isLowUnit (n : Nat) : Bool := 0xDC00 ≤ n && n ≤ 0xDFFF

/-- The character of a pair of units. -/
def pairChar (high low : Nat) : Char :=
  Char.ofNat ((high - 0xD800) * 0x400 + (low - 0xDC00) + 0x10000)

/-- Puts a character in front of the rest of a text. -/
def consChar (c : Char) :
    EStateM.Result Fault (List Char) (List Char) → EStateM.Result Fault (List Char) (List Char)
  | .ok cs rest => .ok (c :: cs) rest
  | .error f rest => .error f rest

/-- The characters up to the closing quote. `high` is the first unit of a pair that still needs its
second one. -/
def textFrom (high : Option Nat) :
    List Char → EStateM.Result Fault (List Char) (List Char)
  | '\\' :: 'u' :: a :: b :: c :: d :: rest =>
    match hexUnit? a b c d, high with
    | none, _ => .error (hexFault (a :: b :: c :: d :: rest)) rest
    | some low, some high =>
      if isLowUnit low then consChar (pairChar high low) (textFrom none rest)
      else .error ⟨.loneSurrogate, some ⟨rest, 0⟩⟩ rest
    | some n, none =>
      if isLowUnit n then .error ⟨.loneSurrogate, some ⟨rest, 0⟩⟩ rest
      else if isHighUnit n then textFrom (some n) rest
      else consChar (Char.ofNat n) (textFrom none rest)
  | '\\' :: 'u' :: rest => .error (hexFault rest) rest
  | '\\' :: c :: rest =>
    match escaped? c, high with
    | _, some _ => .error ⟨.endOfHexEscape, some ⟨c :: rest, 1⟩⟩ rest
    | some e, none => consChar e (textFrom none rest)
    | none, none => .error ⟨.invalidEscape, some ⟨c :: rest, 1⟩⟩ rest
  | '\\' :: [] => .error ⟨.endInText, some ⟨[], 0⟩⟩ []
  | c :: rest =>
    match high with
    | some _ => .error ⟨.endOfHexEscape, some ⟨c :: rest, 1⟩⟩ rest
    | none =>
      if c = '"' then .ok [] rest
      else if c.toNat < 0x20 then .error ⟨.controlCharacter, some ⟨c :: rest, 1⟩⟩ rest
      else consChar c (textFrom none rest)
  | [] => .error ⟨.endInText, some ⟨[], 0⟩⟩ []

/-- The characters of a text whose opening quote comes next. -/
def quotedChars : Reader (List Char) := do
  skip
  textFrom none

def quotedText : Reader String :=
  String.ofList <$> quotedChars

/-- A number as it is written. -/
structure NumberText where
  negative : Bool
  whole : List Char
  fraction : List Char
  exponent : Option (Bool × List Char)

/-- Passes the character if it comes next, and says whether it did. -/
def accept (c : Char) : Reader Bool := do
  if (← peek) = some c then do skip; return true else return false

/-- One or more digits; `atEnd` is the fault of a text that ends before them. -/
def someDigits (atEnd : Cause) : Reader (List Char) := do
  let digits ← takeDigits
  if digits ≠ [] then return digits
  match ← peek with
  | none => fail atEnd
  | some _ => fail .invalidNumber

/-- The digits before the point; a zero that is followed by a digit is refused. -/
def wholeDigits (atEnd : Cause) : Reader (List Char) := do
  if ← accept '0' then
    match ← peek with
    | some c => if Text.Numeral.isDigit c then fail .invalidNumber else return ['0']
    | none => return ['0']
  else someDigits atEnd

/-- The digits after a point, if there is one. -/
def fractionDigits (atEnd : Cause) : Reader (List Char) := do
  if ← accept '.' then someDigits atEnd else return []

/-- Whether an exponent is negative, and its digits, if there is one. -/
def exponentDigits (atEnd : Cause) : Reader (Option (Bool × List Char)) := do
  let next ← peek
  if next = some 'e' ∨ next = some 'E' then
    skip
    if ← accept '-' then return some (true, ← someDigits atEnd)
    else
      let _ ← accept '+'
      return some (false, ← someDigits atEnd)
  else return none

def numberText (atEnd : Cause) : Reader NumberText := do
  let negative ← accept '-'
  let whole ← wholeDigits atEnd
  let fraction ← fractionDigits atEnd
  let exponent ← exponentDigits atEnd
  return { negative, whole, fraction, exponent }

/-- The digits that extend `n` within 64 bits: their value, and the digits left over. -/
def gather (n : Nat) : List Char → Nat × List Char
  | [] => (n, [])
  | c :: rest =>
    let next := 10 * n + Text.Numeral.digit c
    if next ≤ 0xFFFFFFFFFFFFFFFF then gather next rest else (n, c :: rest)

/-- The value of an exponent's digits within 31 bits, or the digits behind the one that exceeds
them. -/
def exponentValue (n : Nat) : List Char → Except (List Char) Nat
  | [] => .ok n
  | c :: rest =>
    let next := 10 * n + Text.Numeral.digit c
    if next ≤ 0x7FFFFFFF then exponentValue next rest else .error rest

def signed (negative : Bool) (x : Decimal.Double) : Number :=
  .real (if negative then x.neg else x)

/-- The value of a number that is followed by `rest`. Digits of the whole part beyond 64 bits raise
the exponent; such digits of the fraction are dropped. -/
def NumberText.value (t : NumberText) (rest : List Char) : Except Fault Number :=
  let (whole, beyond) := gather 0 t.whole
  if t.fraction = [] ∧ t.exponent = none ∧ beyond = [] then
    if !t.negative then .ok (.integer whole)
    -- a negative zero and what is below the least integer are doubles
    else if whole = 0 ∨ 0x8000000000000000 < whole then .ok (signed true (.ofNat whole))
    else .ok (.integer (-(whole : Int)))
  else
    let (significand, dropped) := gather whole t.fraction
    -- each digit left over counts, each digit of the fraction in use counts against it
    let scale : Int := beyond.length - (t.fraction.length - dropped.length : Nat)
    let scaled (exponent : Int) : Except Fault Number :=
      match Decimal.Double.ofDecimal? significand exponent with
      | some x => .ok (signed t.negative x)
      | none => .error ⟨.numberOutOfRange, some ⟨rest, 0⟩⟩
    match t.exponent with
    | none => scaled scale
    | some (negative, digits) =>
      match exponentValue 0 digits with
      | .ok n => scaled (if negative then scale - n else scale + n)
      | .error unread =>
        -- an exponent beyond 31 bits: the number is too great, or it is zero
        if significand ≠ 0 ∧ !negative then
          .error ⟨.numberOutOfRange, some ⟨unread ++ rest, 0⟩⟩
        else .ok (signed t.negative .zero)

/-- A number whose first character comes next. -/
def number : Reader Number := do
  let t ← numberText .endInValue
  fun cs =>
    match t.value cs with
    | .ok n => .ok n cs
    | .error f => .error f cs

/-- Whether another item of an array follows; passes the comma before it. -/
def hasNextItem (first : Bool) : Reader Bool := do
  match ← peekPart with
  | none => fail .endInList
  | some c =>
    if c = ']' then return false
    else if first then return true
    else if c = ',' then do
      skip
      match ← peekPart with
      | none => fail .endInValue
      | some d => if d = ']' then fail .trailingComma else return true
    else fail .expectedListCommaOrEnd

def endItems : Reader Unit := do
  match ← peekPart with
  | none => fail .endInList
  | some c =>
    if c = ']' then skip
    else if c = ',' then do
      skip
      if (← peekPart) = some ']' then fail .trailingComma else fail .trailingCharacters
    else fail .trailingCharacters

def expectName (found : Option Char) : Reader Bool :=
  match found with
  | none => fail .endInValue
  | some c =>
    if c = '"' then return true
    else if c = '}' then fail .trailingComma
    else fail .nameNotText

/-- Whether another member of an object follows; passes the comma before it. -/
def hasNextMember (first : Bool) : Reader Bool := do
  match ← peekPart with
  | none => fail .endInObject
  | some c =>
    if c = '}' then return false
    else if first then expectName (some c)
    else if c = ',' then do
      skip
      expectName (← peekPart)
    else fail .expectedObjectCommaOrEnd

def colon : Reader Unit := do
  match ← peekPart with
  | none => fail .endInObject
  | some c => if c = ':' then skip else fail .expectedColon

def endMembers : Reader Unit := do
  match ← peekPart with
  | none => fail .endInObject
  | some c =>
    if c = '}' then skip
    else if c = ',' then fail .trailingComma
    else fail .trailingCharacters

/-- The items of an array behind its bracket, at most `fuel` of them. -/
def itemsFrom (item : Reader α) : Nat → Bool → Reader (List α)
  | 0, _ => fail .endInList
  | fuel + 1, first => do
    if ← hasNextItem first then
      let a ← item
      let rest ← itemsFrom item fuel false
      return a :: rest
    else return []

def items (item : Reader α) : Reader (List α) := do
  itemsFrom item ((← remaining) + 1) true

/-- The members of an object behind its brace, at most `fuel` of them, each folded into `a` by its
name. -/
def membersFrom (member : α → String → Reader α) : Nat → Bool → α → Reader α
  | 0, _, _ => fail .endInObject
  | fuel + 1, first, a => do
    if ← hasNextMember first then
      let name ← quotedText
      let a ← member a name
      membersFrom member fuel false a
    else return a

/-- The members of an object behind its brace, folded by their names. -/
def members (member : α → String → Reader α) (a : α) : Reader α := do
  membersFrom member ((← remaining) + 1) true a

/-- What stands between a bracket and its end. A mismatch without a place gets the one behind the
end, or where the end was looked for. -/
def enclosed (body : Reader α) (close : Reader Unit) : Reader α := fun cs =>
  match body cs with
  | .ok a rest =>
    match close rest with
    | .ok _ rest => .ok a rest
    | .error f rest => .error f rest
  | .error f rest =>
    -- the first fault stays; the end only gives it a place
    match close rest with
    | .ok _ rest => .error (f.placedAt rest) rest
    | .error _ rest => .error (f.placedAt rest) rest

/-- Runs a reader over a whole text; spaces alone may follow. -/
def run (r : Reader α) (text : List Char) : Except Error α :=
  match r text with
  | .error f _ => .error (f.inText text)
  | .ok a rest =>
    match rest.dropWhile isSpace with
    | [] => .ok a
    | more => .error ((⟨.trailingCharacters, some ⟨more, 1⟩⟩ : Fault).inText text)

/-- Runs a reader over the start of a text; anything may follow. -/
def runStart (r : Reader α) (text : List Char) : Except Error α :=
  match r text with
  | .error f _ => .error (f.inText text)
  | .ok a _ => .ok a

end Reader

end EdgeFleet.Json
