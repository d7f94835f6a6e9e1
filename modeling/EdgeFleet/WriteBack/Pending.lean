import EdgeFleet.Directory.Field
import EdgeFleet.Edge.Basic

namespace EdgeFleet.WriteBack

open Directory (Field)

/-- What is observed of an edge many times a minute. -/
inductive Signal
  | message
  | data
  deriving DecidableEq

/-- What a notice leads to. -/
inductive Effect
  | store (field : Field) (value : Json)
  | mark (signal : Signal)

/-- The effect of a notice; values are stored as texts. -/
def effect : Edge.Notice → Effect
  | .activated => .store .state (.text EdgeState.active.name)
  | .config config => .store .config (.text config.pretty)
  | .version version => .store .version (.text version)
  | .soc soc => .store .soc (.text (String.ofList (Json.integerChars soc.toInt)))
  | .ipv4 ipv4 => .store .ipv4 (.text ipv4.render)
  | .message => .mark .message
  | .data => .mark .data

/-- The edges that were marked and not written yet, in ascending order. -/
structure Pending where
  messages : List EdgeId := []
  data : List EdgeId := []
  deriving DecidableEq

/-- One write: the same moment for several records. -/
structure Batch where
  field : Field
  ids : List UInt32
  stamp : String
  deriving DecidableEq

namespace Pending

/-- Marks an edge. -/
def mark (p : Pending) (signal : Signal) (id : EdgeId) : Pending :=
  match signal with
  | .message => { p with messages := Ordered.add id p.messages }
  | .data => { p with data := Ordered.add id p.data }

/-- The write of the edges marked for a field, if there are any. -/
def batch (field : Field) (ids : List EdgeId) (now : Timestamp) : List Batch :=
  if ids = [] then [] else [⟨field, ids.map (·.value), now.stored⟩]

/-- The writes of all marks, with the present moment. -/
def batches (p : Pending) (now : Timestamp) : List Batch :=
  batch .lastMessage p.messages now ++ batch .lastUpdate p.data now

theorem mem_batch {field : Field} {ids : List EdgeId} {now : Timestamp} {b : Batch} :
    b ∈ batch field ids now ↔ ids ≠ [] ∧ b = ⟨field, ids.map (·.value), now.stored⟩ := by
  by_cases h : ids = [] <;> simp [batch, h]

end Pending

end EdgeFleet.WriteBack
