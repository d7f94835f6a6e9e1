import EdgeFleet.RecordId
import EdgeFleet.Session.Error

namespace EdgeFleet

/-- Who a session belongs to. -/
structure UserInfo where
  id : UserId
  name : String
  deriving DecidableEq

/-- An edge that a session may access, with the role as it was sent. -/
structure DeviceGrant where
  id : EdgeId
  role : String
  deriving DecidableEq

/-- A confirmed session. -/
structure SessionInfo where
  user : UserInfo
  devices : List DeviceGrant
  deriving DecidableEq

/-- A line of a response: an error, a session, both or neither. -/
structure InfoLine where
  error : Option String := none
  result : Option SessionInfo := none
  deriving DecidableEq

open Json (Reader)
open Json.Reader (record nullable listOf)

/-- The members of a user under construction. -/
structure UserInfo.Draft where
  id : Option UserId := none
  name : Option String := none

def UserInfo.reader : Reader UserInfo :=
  record "UserInfo"
    [.of "id" false RecordId.reader fun id d => { d with id := some id },
      .of "name" false Json.Reader.text fun name d => { d with name := some name }]
    { : UserInfo.Draft }
    fun d => match d.id, d.name with
      | some id, some name => .ok ⟨id, name⟩
      | none, _ => .error "id"
      | _, none => .error "name"

/-- A grant before its identifier has been checked. -/
structure DeviceGrant.Draft where
  id : Option UInt32 := none
  role : Option String := none

/-- Reads a grant; one of the identifier zero is none. -/
def DeviceGrant.reader : Reader (Option DeviceGrant) :=
  record "RawGrant"
    [.of "id" false Json.Reader.word32 fun id d => { d with id := some id },
      .of "role" false Json.Reader.text fun role d => { d with role := some role }]
    { : DeviceGrant.Draft }
    fun d => match d.id, d.role with
      | some id, some role => .ok ((RecordId.ofWord id).toOption.map fun id => ⟨id, role⟩)
      | none, _ => .error "id"
      | _, none => .error "role"

/-- The members of a session under construction. -/
structure SessionInfo.Draft where
  user : Option UserInfo := none
  devices : List DeviceGrant := []

/-- Reads a session. Grants that are none are left out. -/
def SessionInfo.reader : Reader SessionInfo :=
  record "SessionInfo"
    [.of "user" false UserInfo.reader fun user d => { d with user := some user },
      .of "devices" true (listOf DeviceGrant.reader)
        fun devices d => { d with devices := devices.filterMap id }]
    { : SessionInfo.Draft }
    fun d => match d.user with
      | some user => .ok ⟨user, d.devices⟩
      | none => .error "user"

namespace InfoLine

def errorReader : Reader String :=
  record "InfoError"
    [.of "message" false Json.Reader.text fun m _ => some m] none
    fun m => match m with
      | some m => .ok m
      | none => .error "message"

def reader : Reader InfoLine :=
  record "InfoLine"
    [.of "error" true (nullable errorReader) fun error l => { l with error },
      .of "result" true (nullable SessionInfo.reader) fun result l => { l with result }]
    { : InfoLine } .ok

/-- What the line decides, if it decides anything. -/
def decision (line : List Char) : Option (Except AuthError SessionInfo) :=
  match reader.run line with
  | .error e => some (.error (.invalidResponse e))
  | .ok { error := some message, .. } => some (.error (.remote message))
  | .ok { error := none, result := some info } => some (.ok info)
  | .ok { error := none, result := none } => none

end InfoLine

namespace SessionInfo

def lines : List Char → List (List Char)
  | [] => [[]]
  | c :: rest =>
    if c = '\n' then [] :: lines rest
    else match lines rest with
      | [] => [[c]]
      | line :: more => (c :: line) :: more

/-- The decision of the first line that makes one. -/
def firstDecision : List (List Char) → Except AuthError SessionInfo
  | [] => .error .noMatchingUser
  | line :: rest =>
    let line := Text.trimChars line
    if line = [] then firstDecision rest
    else (InfoLine.decision line).getD (firstDecision rest)

theorem firstDecision_of_decision {line : List Char} (rest : List (List Char))
    {d : Except AuthError SessionInfo} (hline : Text.trimChars line ≠ [])
    (hd : InfoLine.decision (Text.trimChars line) = some d) : firstDecision (line :: rest) = d := by
  simp [firstDecision, hline, hd]

theorem firstDecision_of_none {line : List Char} (rest : List (List Char))
    (h : Text.trimChars line = [] ∨ InfoLine.decision (Text.trimChars line) = none) :
    firstDecision (line :: rest) = firstDecision rest := by
  rcases h with h | h
  · simp [firstDecision, h]
  · by_cases hb : Text.trimChars line = [] <;> simp [firstDecision, h, hb]

def parseChars (body : List Char) : Except AuthError SessionInfo :=
  firstDecision (lines body)

def parse (body : String) : Except AuthError SessionInfo :=
  parseChars body.toList

end SessionInfo

end EdgeFleet
