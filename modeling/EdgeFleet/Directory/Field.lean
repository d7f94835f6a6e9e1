import EdgeFleet.Json.Printer

namespace EdgeFleet.Directory

/-- The model of edge records. -/
def deviceModel : String := "fems.device"

/-- A field of an edge record. -/
inductive Field
  | id
  | apikey
  | name
  | comment
  | state
  | version
  | productType
  | config
  | soc
  | ipv4
  | lastMessage
  | lastUpdate
  deriving DecidableEq

namespace Field

def all : List Field :=
  [.id, .apikey, .name, .comment, .state, .version, .productType, .config, .soc, .ipv4,
    .lastMessage, .lastUpdate]

def key : Field → String
  | .id => "id"
  | .apikey => "apikey"
  | .name => "name"
  | .comment => "comment"
  | .state => "state"
  | .version => "openems_version"
  | .productType => "producttype"
  | .config => "openems_config"
  | .soc => "soc"
  | .ipv4 => "ipv4"
  | .lastMessage => "lastmessage"
  | .lastUpdate => "lastupdate"

def ofKey? (key : String) : Option Field :=
  all.find? (·.key == key)

end Field

/-- A record: its fields by name. -/
abbrev Record := Json.Members

/-- What a search asks of a field. -/
structure Criterion where
  field : Field
  operator : String
  value : Json

namespace Criterion

def equals (field : Field) (value : Json) : Criterion := ⟨field, "=", value⟩

/-- Whether a record meets the criterion. Equality is the only operator. -/
def meets (c : Criterion) (r : Record) : Bool :=
  c.operator == "=" &&
    match Ordered.get? c.field.key r with
    | some v => v.same c.value
    | none => false

def toJson (c : Criterion) : Json :=
  .array [.text c.field.key, .text c.operator, c.value]

def same (c d : Criterion) : Bool :=
  c.field == d.field && c.operator == d.operator && c.value.same d.value

end Criterion

end EdgeFleet.Directory
