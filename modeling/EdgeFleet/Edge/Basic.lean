import EdgeFleet.Edge.Record
import EdgeFleet.Timestamp

namespace EdgeFleet

/-- A remote controller as it is known here. -/
structure Edge where
  id : EdgeId
  name : String
  comment : String
  version : String
  productType : String
  config : Json
  soc : Option Int32
  ipv4 : Option Ipv4
  state : EdgeState
  online : Bool
  lastMessage : Option Timestamp
  lastUpdate : Option Timestamp

namespace Edge

/-- The edge of a record, which has not been seen online yet. -/
def ofRecord (r : EdgeRecord) : Edge where
  id := r.id
  name := r.name
  comment := r.comment
  version := r.version
  productType := r.productType
  config := .object r.config
  soc := r.soc
  ipv4 := r.ipv4
  state := r.state
  online := false
  lastMessage := none
  lastUpdate := none

/-- What the edge reports or what is observed of it. -/
inductive Update
  | online (online : Bool)
  | config (config : Json)
  | version (version : String)
  | soc (soc : Int32)
  | ipv4 (ipv4 : Ipv4)
  | message (time : Timestamp)
  | data (time : Timestamp)

/-- A change that is to be stored. -/
inductive Notice
  | activated
  | config (config : Json)
  | version (version : String)
  | soc (soc : Int32)
  | ipv4 (ipv4 : Ipv4)
  | message
  | data

/-- The edge after an update, and the notice of it. An inactive edge becomes active when it is first
seen online, and stays so. -/
def update (e : Edge) : Update → Edge × Option Notice
  | .online online =>
    if online ∧ e.state = .inactive then
      ({ e with online, state := .active }, some .activated)
    else ({ e with online }, none)
  | .config config =>
    if e.config.same config then (e, none) else ({ e with config }, some (.config config))
  | .version version =>
    if e.version = version then (e, none) else ({ e with version }, some (.version version))
  | .soc soc =>
    ({ e with soc := some soc }, if e.soc = some soc then none else some (.soc soc))
  | .ipv4 ipv4 =>
    ({ e with ipv4 := some ipv4 }, if e.ipv4 = some ipv4 then none else some (.ipv4 ipv4))
  | .message time => ({ e with lastMessage := some time }, some .message)
  | .data time => ({ e with lastUpdate := some time }, some .data)

theorem id_update (e : Edge) (u : Update) : (e.update u).1.id = e.id := by
  cases u <;> simp only [update] <;> split <;> rfl

theorem state_update_of_ne_inactive {e : Edge} (h : e.state ≠ .inactive) (u : Update) :
    (e.update u).1.state = e.state := by
  cases u <;> simp only [update, h, and_false, if_false] <;> split <;> rfl

def textOrNull : Option String → Json
  | some s => .text s
  | none => .null

def toJson (e : Edge) : Json :=
  .ofMembers
    [("id", e.id.toJson), ("name", .text e.name), ("comment", .text e.comment),
      ("version", .text e.version), ("product_type", .text e.productType), ("config", e.config),
      ("soc", match e.soc with | some n => .ofInt n.toInt | none => .null),
      ("ipv4", textOrNull (e.ipv4.map (·.render))), ("state", .text e.state.name),
      ("online", .bool e.online), ("last_message", textOrNull (e.lastMessage.map (·.shown))),
      ("last_update", textOrNull (e.lastUpdate.map (·.shown)))]

def describe (e : Edge) : String :=
  Text.describeRecord "Edge"
    [("id", e.id.describe), ("name", Text.quoted e.name), ("state", e.state.describe),
      ("online", Text.describeBool e.online)] true

end Edge

end EdgeFleet
