import EdgeFleet.Directory.Config
import EdgeFleet.Directory.Error
import EdgeFleet.Http.Exchange

namespace EdgeFleet.Directory

/-- An error that a response reports. -/
structure RpcError where
  code : Int := 0
  message : String
  detail : Option String := none
  deriving DecidableEq

/-- A response: an error, a result, both or neither. -/
structure RpcReply where
  error : Option RpcError := none
  result : Option Json := none

namespace RpcReply

open Json (Reader)
open Json.Reader (Member record nullable integer)

/-- The members of an error under construction. -/
structure Draft where
  code : Int := 0
  message : Option String := none
  detail : Option String := none

/-- Reads the further data of an error: its own message, if any. -/
def detailReader : Reader (Option String) :=
  record "RpcErrorData" [.of "message" true (nullable Json.Reader.text) fun m _ => m] none .ok

def errorReader : Reader RpcError :=
  record "RpcError"
    [.of "code" true (integer Json.minInteger 0x7FFFFFFFFFFFFFFF "i64") fun code d => { d with code },
      .of "message" false Json.Reader.text fun m d => { d with message := some m },
      .of "data" true (nullable detailReader) fun m d => { d with detail := m.join }]
    { : Draft }
    fun d => match d.message with
      | some message => .ok { code := d.code, message, detail := d.detail }
      | none => .error "message"

def reader : Reader RpcReply :=
  record "RpcResponse"
    [.of "result" true (nullable (Json.Reader.value (Json.Reader.maxDepth - 1)))
        fun result r => { r with result },
      .of "error" true (nullable errorReader) fun error r => { r with error }]
    { : RpcReply } .ok

end RpcReply

namespace Rpc

/-- The result that an exchange brings, whatever was asked. -/
def outcome : Except String Http.Reply → Except DirectoryError Json
  | .error detail => .error (.transport ("request failed: " ++ detail))
  | .ok reply =>
    if !Http.isSuccess reply.status then
      .error (.transport ("HTTP " ++ Http.describeStatus reply.status))
    else
      match reply.decode RpcReply.reader with
      | .error detail => .error (.parse ("invalid response: " ++ detail))
      | .ok { error := some e, .. } => .error (.remote e.code (e.detail.getD e.message))
      | .ok { error := none, result := some result } => .ok result
      | .ok { error := none, result := none } =>
        .error (.parse "response has neither result nor error")

theorem outcome_of_not_success {reply : Http.Reply} (h : Http.isSuccess reply.status = false) :
    outcome (.ok reply) = .error (.transport ("HTTP " ++ Http.describeStatus reply.status)) := by
  simp [outcome, h]

/-- What kind of value stands in place of the expected one. -/
def found : Json → Json.Found
  | .null => .null
  | .bool b => .bool b
  | .number n => .number n
  | .text s => .text s
  | .array _ => .sequence
  | .object _ => .map

def misshapen (j : Json) (expected : String) : DirectoryError :=
  .parse (Json.Cause.wrongType (found j) expected).describe

def word : Json → Except DirectoryError UInt32
  | .number (.integer n) =>
    if 0 ≤ n ∧ n ≤ 0xFFFFFFFF then .ok n.toNat.toUInt32
    else .error (.parse (Json.Cause.wrongInteger n "u32").describe)
  | j => .error (misshapen j "u32")

def words : Json → Except DirectoryError (List UInt32)
  | .array items => items.mapM word
  | j => .error (misshapen j "a sequence")

def record : Json → Except DirectoryError Record
  | .object members => .ok members
  | j => .error (misshapen j "a map")

def records : Json → Except DirectoryError (List Record)
  | .array items => items.mapM record
  | j => .error (misshapen j "a sequence")

def flag : Json → Except DirectoryError Bool
  | .bool b => .ok b
  | j => .error (misshapen j "a boolean")

/-- A client: the account and the number of its next call. -/
structure Client where
  config : Config
  nextId : Nat := 1

namespace Client

/-- The call of a method of the device model. -/
def request (c : Client) (method : String) (args kwargs : Json) : Http.Outgoing where
  url := c.config.callUrl
  query := []
  body := .ofMembers
    [("jsonrpc", .text "2.0"), ("method", .text "call"), ("id", .ofNat c.nextId),
      ("params", .ofMembers
        [("service", .text "object"), ("method", .text "execute_kw"),
          ("args", .array
            [.text c.config.database, .ofNat c.config.uid.toNat, .text c.config.password,
              .text deviceModel, .text method, args, kwargs])])]

/-- Calls a method; the client's next call has the next number. -/
def execute (c : Client) (exchange : Http.Exchange) (method : String) (args kwargs : Json) :
    Client × Except DirectoryError Json :=
  ({ c with nextId := c.nextId + 1 }, outcome (exchange (c.request method args kwargs)))

/-- The identifiers of the records that meet every criterion. -/
def search (c : Client) (exchange : Http.Exchange) (criteria : List Criterion) :
    Client × Except DirectoryError (List UInt32) :=
  let (c, result) := c.execute exchange "search"
    (.array [.array (criteria.map (·.toJson))]) (.object [])
  (c, result >>= words)

def read (c : Client) (exchange : Http.Exchange) (id : UInt32) (fields : List Field) :
    Client × Except DirectoryError Record :=
  let (c, result) := c.execute exchange "read" (.array [.array [.ofNat id.toNat]])
    (.ofMembers [("fields", .array (fields.map fun f => .text f.key))])
  (c, do
    match ← result >>= records with
    | r :: _ => .ok r
    | [] => .error (.notFound id))

def write (c : Client) (exchange : Http.Exchange) (ids : List UInt32) (field : Field)
    (value : Json) : Client × Except DirectoryError Bool :=
  let (c, result) := c.execute exchange "write"
    (.array [.array (ids.map fun id => .ofNat id.toNat), .ofMembers [(field.key, value)]])
    (.object [])
  (c, result >>= flag)

end Client

end Rpc

end EdgeFleet.Directory
