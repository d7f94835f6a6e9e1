import EdgeFleet.Directory.Field
import EdgeFleet.Edge.Document
import EdgeFleet.EdgeState
import EdgeFleet.Ipv4
import EdgeFleet.RecordId

/-! Edges as the directory records them. Null and `false` stand for a field that is not set, any other value
of a wrong type is refused, and an unknown state or an address that cannot be read is no fault. -/
namespace EdgeFleet

open Directory (Field)

/-- The stored part of an edge. -/
structure EdgeRecord where
  id : EdgeId
  name : String
  comment : String
  version : String
  productType : String
  config : Json.Members
  soc : Option Int32
  ipv4 : Option Ipv4
  state : EdgeState

/-- Why a record is no edge. -/
inductive RecordError
  | wrongId (cause : Json.Cause)
  | missingId
  | expectedText (got : Json)
  | expectedInteger (got : Json)
  | document (reason : DocumentError)
  | otherEdge (got expected : EdgeId)

namespace RecordError

/-- What stands in place of an integer: a text in quotes, another value as it is written. -/
def integerInWords : Json → String
  | .text s => Text.quoted s
  | j => j.compact

def message : RecordError → String
  | .wrongId cause => "invalid device record: " ++ cause.describe
  | .missingId => "invalid device record: " ++ (Json.Cause.missingMember "id").describe
  | .expectedText got => "invalid device record: expected string, got " ++ got.compact
  | .expectedInteger got => "invalid device record: expected integer, got " ++ integerInWords got
  | .document reason => reason.message
  | .otherEdge got expected =>
    "directory returned edge " ++ got.render ++ " for edge " ++ expected.render

end RecordError

namespace EdgeRecord

def fields : List Field :=
  [.name, .comment, .version, .productType, .config, .soc, .ipv4, .state]

def idOf : Json → Except RecordError EdgeId
  | .number (.integer n) =>
    if 0 ≤ n ∧ n ≤ 0xFFFFFFFF then
      match RecordId.ofWord n.toNat.toUInt32 with
      | .ok id => .ok id
      | .error e => .error (.wrongId (.refused e.message))
    else .error (.wrongId (.wrongInteger n "u32"))
  | .number (.real x) => .error (.wrongId (.wrongType (.number (.real x)) "u32"))
  | .null => .error (.wrongId (.wrongType .null "u32"))
  | .bool b => .error (.wrongId (.wrongType (.bool b) "u32"))
  | .text s => .error (.wrongId (.wrongType (.text s) "u32"))
  | .array _ => .error (.wrongId (.wrongType .sequence "u32"))
  | .object _ => .error (.wrongId (.wrongType .map "u32"))

/-- A text, empty where the field is not set. -/
def textOf : Json → Except RecordError String
  | .null | .bool false => .ok ""
  | .text s => .ok s
  | j => .error (.expectedText j)

/-- An integer of 32 bits, as a number or in a text; none where the field is not set. -/
def integerOf : Json → Except RecordError (Option Int32)
  | .null | .bool false => .ok none
  | .number (.integer n) =>
    if -0x80000000 ≤ n ∧ n ≤ 0x7FFFFFFF then .ok (some (Int32.ofInt n))
    else .error (.expectedInteger (.number (.integer n)))
  | .text s =>
    let trimmed := Text.trimChars s.toList
    if trimmed = [] then .ok none
    else match Text.Numeral.signed? 0x7FFFFFFF trimmed with
      | some n => .ok (some (Int32.ofInt n))
      | none => .error (.expectedInteger (.text s))
  | j => .error (.expectedInteger j)

/-- The fields of a record, as they are stored. -/
structure Raw where
  id : Option EdgeId := none
  name : String := ""
  comment : String := ""
  version : String := ""
  productType : String := ""
  config : String := ""
  soc : Option Int32 := none
  ipv4 : String := ""
  state : String := ""

/-- Puts a field into the raw fields. Fields that are no part of an edge are passed over. -/
def Raw.put (raw : Raw) (key : String) (value : Json) : Except RecordError Raw :=
  match Field.ofKey? key with
  | some .id => do return { raw with id := some (← idOf value) }
  | some .name => do return { raw with name := ← textOf value }
  | some .comment => do return { raw with comment := ← textOf value }
  | some .version => do return { raw with version := ← textOf value }
  | some .productType => do return { raw with productType := ← textOf value }
  | some .config => do return { raw with config := ← textOf value }
  | some .soc => do return { raw with soc := ← integerOf value }
  | some .ipv4 => do return { raw with ipv4 := ← textOf value }
  | some .state => do return { raw with state := ← textOf value }
  | some .apikey | some .lastMessage | some .lastUpdate | none => .ok raw

/-- The fields of a record in the order of their names; the first fault is reported. -/
def Raw.ofRecord (record : Directory.Record) : Except RecordError Raw :=
  record.foldlM (fun raw (key, value) => raw.put key value) {}

def Raw.finish (raw : Raw) : Except RecordError EdgeRecord :=
  match raw.id with
  | none => .error .missingId
  | some id =>
    -- the document is looked at when every field has been read
    match Document.parse raw.config with
    | .error reason => .error (.document reason)
    | .ok config =>
      .ok
        { id
          name := raw.name
          comment := raw.comment
          version := raw.version
          productType := raw.productType
          config
          soc := raw.soc
          ipv4 := Ipv4.parse? (Text.trim raw.ipv4)
          state := (EdgeState.parse? raw.state).getD .inactive }

def decode (record : Directory.Record) : Except RecordError EdgeRecord :=
  Raw.ofRecord record >>= Raw.finish

/-- The edge of a record that was read under an identifier. -/
def decodeFor (id : EdgeId) (record : Directory.Record) : Except RecordError EdgeRecord := do
  let edge ← decode record
  if edge.id = id then return edge else .error (.otherEdge edge.id id)

theorem id_of_decodeFor {id : EdgeId} {record : Directory.Record} {edge : EdgeRecord}
    (h : decodeFor id record = .ok edge) : edge.id = id := by
  cases hd : decode record with
  | error e => simp [decodeFor, hd, bind, Except.bind] at h
  | ok found =>
    by_cases hid : found.id = id
    · simp [decodeFor, hd, hid, bind, Except.bind, pure, Except.pure] at h
      exact h ▸ hid
    · simp [decodeFor, hd, hid, bind, Except.bind] at h

end EdgeRecord

end EdgeFleet
