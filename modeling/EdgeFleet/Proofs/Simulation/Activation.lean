import EdgeFleet.Proofs.Service.History
import EdgeFleet.Proofs.Simulation.Upkeep

namespace EdgeFleet

namespace Directory.Memory

theorem record?_write_of_failWrites {m : Memory} (h : m.failWrites = true) (ids : List UInt32)
    (field : Field) (value : Json) (id : UInt32) :
    (m.write ids field value).1.record? id = m.record? id := by
  rw [write_of_failWrites h]

end Directory.Memory

namespace Service

/-- How an instance is activated in a run, where `record` is what it was made of: as the calls on it say,
whatever else happens and whatever becomes of their writes. -/
structure ActivatedOnce (ms : List Moment) (ref : EdgeRef) (i : Instance) (record : EdgeRecord)
    (said : List Bool) : Prop where
  heard : said = Edge.presences ((callsOn ref ms).map (·.update))
  state : i.edge.state = if Edge.Activates record.state said then .active else record.state
  notices : ((callsOn ref ms).filterMap SetterCall.notice?).countP (·.state?.isSome) =
    if Edge.Activates record.state said then 1 else 0
  online : i.edge.online = said.getLast?.getD false

theorem History.activatedOnce {ms : List Moment} {ref : EdgeRef} {i : Instance} {record : EdgeRecord}
    {online : Bool} (h : History ms ref i record online) :
    ActivatedOnce ms ref i record (Edge.presences ((callsOn ref ms).map (·.update))) := by
  obtain ⟨hstate, hlog⟩ :=
    Edge.activation (Edge.ofRecord record) ((callsOn ref ms).map (·.update))
  refine ⟨rfl, ?_, ?_, ?_⟩
  · rw [h.edge, hstate]
    rfl
  · rw [h.notices, Edge.countP_state?, hlog, apply_ite List.length]
    rfl
  · rw [h.edge, Edge.online_after]
    rfl

end Service

namespace Simulation

variable {s : Simulation} {id : EdgeId} {r : Directory.Record} {record : EdgeRecord}

/-- Where writes fail or are refused, the record stays as it is. -/
theorem record?_attempt (h : s.refusing = true ∨ s.directory.failWrites = true) {m : Directory.Memory}
    (hm : m.failWrites = s.directory.failWrites) (own : EdgeId) (change : Option WriteBack.Effect)
    (other : UInt32) : (s.attempt m own change).record? other = m.record? other := by
  unfold attempt
  split
  · rfl
  · rename_i hr
    have hfail : m.failWrites = true := hm.trans (h.resolve_left hr)
    match change with
    | none | some (.mark _) => rfl
    | some (.store field value) =>
      exact Directory.Memory.record?_write_of_failWrites hfail [own.value] field value other

/-- A refresh of an edge that is connected, which is answered with the edge that it keeps. -/
structure Connects (s : Simulation) (id : EdgeId) (r : Directory.Record) (record : EdgeRecord)
    (n : Nat) (keep : Option String) (e : Edge) : Prop where
  answered : (s.run n (.refresh id keep)).2.outcome = some (.edge e)
  kept : ∃ ref, (s.run n (.refresh id keep)).1.service.cache.edges.peek? id = some ref ∧
    (s.run n (.refresh id keep)).1.edge? ref = some e
  state : e.state = if record.state = .inactive then .active else record.state
  online : e.online = true
  /-- The record does not become active where writes fail or are refused. -/
  unwritten : s.refusing = true ∨ s.directory.failWrites = true →
    (s.run n (.refresh id keep)).1.directory.record? id.value = some r

theorem connects (hc : s.Ready id) (hr : s.directory.record? id.value = some r)
    (hd : EdgeRecord.decodeFor id (Directory.Memory.select id.value EdgeRecord.fields r) = .ok record)
    (ho : s.isOnline id = true) (n : Nat) (keep : Option String) :
    ∃ e, s.Connects id r record n keep e := by
  have hstate := (Edge.activation (Edge.ofRecord record) [.online true]).1
  have honline := Edge.online_after (Edge.ofRecord record) [.online true]
  rcases hu : (Edge.ofRecord record).update (.online true) with ⟨e, notice⟩
  have he : (Edge.ofRecord record).after [.online true] = e := congrArg Prod.fst hu
  rw [he] at hstate honline
  have hu' : (Edge.ofRecord record).update (.online (s.isOnline id)) = (e, notice) := by
    rw [ho, hu]
  obtain ⟨log, hrun⟩ := run_refresh hc hr hd hu' n keep
  refine ⟨e, ?_⟩
  constructor
  case answered => rw [hrun]
  case kept =>
    refine ⟨s.service.instances.length, ?_, ?_⟩
    · rw [hrun]
      exact Cache.Recent.peek?_put_self _ _ _
    · rw [hrun]
      exact congrArg (Option.map (·.edge)) (s.service.instance?_made id e)
  case state =>
    rw [hstate]
    simp [Edge.Activates, Edge.presences, Edge.Update.online?, Edge.ofRecord]
  case online => exact honline
  case unwritten =>
    intro hfail
    let counted : Directory.Memory := { s.directory with reads := s.directory.reads + 1 }
    rw [hrun]
    exact (record?_attempt (m := counted) hfail rfl id _ _).trans hr

/-- An edge is activated once, and stays active: an edge that calls share, whatever becomes of its
notices; an instance in any run of the service; and the edge that a refresh keeps while it is
connected. -/
theorem activation_sticks :
    (∀ (record : EdgeRecord) (moves : List Edge.Shared.Move), Edge.ActivatesOnce record moves) ∧
    (∀ (settings : Settings) (es : List Service.Event) (ref : EdgeRef) (i : Instance),
      ((Service.start settings).run es).instance? ref = some i →
        ∃ record online said, Service.History ((Service.start settings).moments es) ref i record online ∧
          Service.ActivatedOnce ((Service.start settings).moments es) ref i record said) ∧
    ∀ (s : Simulation) (id : EdgeId) (r : Directory.Record) (record : EdgeRecord), s.Ready id →
      s.directory.record? id.value = some r →
      EdgeRecord.decodeFor id (Directory.Memory.select id.value EdgeRecord.fields r) = .ok record →
      s.isOnline id = true →
        ∀ n keep, ∃ e, s.Connects id r record n keep e := by
  refine ⟨Edge.activatesOnce, ?_, ?_⟩
  · intro settings es ref i hi
    obtain ⟨record, online, hhistory⟩ := Service.history_run settings es hi
    exact ⟨record, online, _, hhistory, hhistory.activatedOnce⟩
  · intro s id r record hc hr hd ho n keep
    exact connects hc hr hd ho n keep

section Start

open Service (edgeOne)

/-- The meter is connected, and no write reaches the directory. -/
def unwritable : Simulation := (metered.run 1 (.fail none none (some true) none)).1

/-- The connected meter is kept as an active edge, and its record says that it is inactive. -/
theorem activation_sticks_unwritable :
    ∃ e ref record, (unwritable.run 2 (.refresh edgeOne none)).2.outcome = some (.edge e) ∧
      (unwritable.run 2 (.refresh edgeOne none)).1.service.cache.edges.peek? edgeOne = some ref ∧
      e.state = .active ∧
      (unwritable.run 2 (.refresh edgeOne none)).1.directory.record? 1 = some record ∧
      Ordered.get? Directory.Field.state.key record = some (.text EdgeState.inactive.name) := by
  have hready : unwritable.Ready edgeOne := by
    constructor <;> rfl
  obtain ⟨e, hconnects⟩ := activation_sticks.2.2 unwritable edgeOne _
    ⟨edgeOne, "", "", "", "", limitOf 5, some 42, none, .inactive⟩ hready rfl decodeFor_meterRecord rfl 2 none
  obtain ⟨ref, hkept, -⟩ := hconnects.kept
  exact ⟨e, ref, _, hconnects.answered, hkept, hconnects.state, hconnects.unwritten (.inr rfl), rfl⟩

end Start

end Simulation

end EdgeFleet
