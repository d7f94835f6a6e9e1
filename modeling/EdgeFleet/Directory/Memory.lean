import EdgeFleet.Directory.Error

namespace EdgeFleet.Directory

/-- A write that was carried out. -/
structure Write where
  ids : List UInt32
  field : Field
  value : Json

/-- A directory in memory. It counts its calls, logs its writes and can be told to fail. -/
structure Memory where
  records : List (UInt32 × Record) := []
  writes : List Write := []
  searches : Nat := 0
  reads : Nat := 0
  failSearch : Bool := false
  failReads : Bool := false
  failWrites : Bool := false
  readDelay : Option Nat := none

namespace Memory

def record? (m : Memory) (id : UInt32) : Option Record := Ordered.get? id m.records

/-- Inserts or replaces a record, whose field `id` is set. -/
def insert (m : Memory) (id : UInt32) (r : Record) : Memory :=
  { m with
    records := Ordered.insert id (Ordered.insert Field.id.key (.ofNat id.toNat) r) m.records }

/-- The identifiers of the records that meet every criterion, in ascending order. -/
def search (m : Memory) (criteria : List Criterion) :
    Memory × Except DirectoryError (List UInt32) :=
  let result :=
    if m.failSearch then .error (.transport "connection refused")
    else .ok ((m.records.filter fun (_, r) => criteria.all (·.meets r)).map (·.1))
  ({ m with searches := m.searches + 1 }, result)

/-- The fields of a record; one that is not set is `false`. -/
def select (id : UInt32) (fields : List Field) (r : Record) : Record :=
  fields.foldl (fun shown f =>
      Ordered.insert f.key ((Ordered.get? f.key r).getD (.bool false)) shown)
    [(Field.id.key, .ofNat id.toNat)]

def read (m : Memory) (id : UInt32) (fields : List Field) :
    Memory × Except DirectoryError Record :=
  let result :=
    if m.failReads then .error (.transport "read timed out")
    else match m.record? id with
      | none => .error (.notFound id)
      | some r => .ok (select id fields r)
  ({ m with reads := m.reads + 1 }, result)

/-- The records with a field set in one of them, if it is there. -/
def store (records : List (UInt32 × Record)) (id : UInt32) (field : Field) (value : Json) :
    List (UInt32 × Record) :=
  match Ordered.get? id records with
  | none => records
  | some r => Ordered.insert id (Ordered.insert field.key value r) records

/-- Sets one field of every record in `ids`; identifiers without a record are passed over. -/
def write (m : Memory) (ids : List UInt32) (field : Field) (value : Json) :
    Memory × Except DirectoryError Bool :=
  if m.failWrites then (m, .error (.remote 200 "write rejected"))
  else
    ({ m with
        records := ids.foldl (fun records id => store records id field value) m.records
        writes := m.writes ++ [⟨ids, field, value⟩] },
      .ok true)

/-- The writes of one field, in order. -/
def writesTo (m : Memory) (field : Field) : List Write :=
  m.writes.filter (·.field == field)

theorem record?_insert_self (m : Memory) (id : UInt32) (r : Record) :
    (m.insert id r).record? id = some (Ordered.insert Field.id.key (.ofNat id.toNat) r) :=
  Ordered.get?_insert_self _ _ _

theorem record?_insert_of_ne (m : Memory) {id other : UInt32} (h : other ≠ id) (r : Record) :
    (m.insert id r).record? other = m.record? other :=
  Ordered.get?_insert_of_ne h _ _

theorem write_of_failWrites {m : Memory} (h : m.failWrites = true) (ids : List UInt32)
    (field : Field) (value : Json) : (m.write ids field value).1 = m := by
  simp [write, h]

end Memory

end EdgeFleet.Directory
