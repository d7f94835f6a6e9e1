import EdgeFleet.Proofs.Edge.Content
import EdgeFleet.Proofs.Service.Alone
import EdgeFleet.Simulation.Run

namespace EdgeFleet.Simulation

open Directory (Field)
open WriteBack (Effect effect)

variable {s : Simulation} {id : EdgeId}

/-- No call is under way, nothing is held, and the edge can be read, without a reply prepared for it.
Writes may fail or be refused. -/
structure Ready (s : Simulation) (id : EdgeId) : Prop where
  turns : s.turns = []
  waiting : s.waiting = []
  holding : s.holding = []
  reply : Ordered.get? id.value s.replies = none
  reads : s.directory.failReads = false
  tasks : s.service.tasks = []

/-- Nothing is under way, nothing fails or is held, and no reply is prepared for the edge. -/
structure Calm (s : Simulation) (id : EdgeId) : Prop where
  turns : s.turns = []
  waiting : s.waiting = []
  holding : s.holding = []
  refusing : s.refusing = false
  reply : Ordered.get? id.value s.replies = none
  reads : s.directory.failReads = false
  writes : s.directory.failWrites = false
  tasks : s.service.tasks = []
  idle : s.service.worker.background = .idle
  closed : s.service.worker.closed = false
  flushes : s.service.worker.flushes = []
  period : WriteBack.Ticker.tolerance < s.ticker.period

theorem Calm.ready (h : s.Calm id) : s.Ready id :=
  ⟨h.turns, h.waiting, h.holding, h.reply, h.reads, h.tasks⟩

section Settle

variable {fuel : Nat}

theorem settle_nil (h : s.turns = []) (fuel : Nat) : settle fuel s = s := by
  cases fuel with
  | zero => rfl
  | succ fuel => simp only [settle, h]

theorem settle_event {e : Service.Event} {turns : List Turn} (h : s.turns = .event e :: turns)
    (fuel : Nat) : settle (fuel + 1) s = settle fuel ({ s with turns }.handle e) := by
  simp only [settle, h]

theorem settle_look {turns : List Turn} (h : s.turns = .lookAtClock :: turns) (fuel : Nat) :
    settle (fuel + 1) s = settle fuel ({ s with turns }.lookAtClock) := by
  simp only [settle, h]

theorem settleAll_eq (s : Simulation) : ∃ fuel, s.settleAll = settle (fuel + 16) s :=
  ⟨_, congrArg (settle · s) (Nat.add_comm _ _)⟩

end Settle

/-- The directory after the write of an update, if there is one. -/
def carryOut (m : Directory.Memory) (id : EdgeId) : Option Effect → Directory.Memory
  | some (.store field value) => (m.write [id.value] field value).1
  | some (.mark _) | none => m

/-- The directory after an attempt at that write, which fails or is refused where writes are. -/
def attempt (s : Simulation) (m : Directory.Memory) (id : EdgeId) (change : Option Effect) :
    Directory.Memory :=
  if s.refusing then m else carryOut m id change

theorem Calm.attempt_eq (h : s.Calm id) (m : Directory.Memory) (own : EdgeId)
    (change : Option Effect) : s.attempt m own change = carryOut m own change := by
  rw [attempt, h.refusing]
  rfl

/-- What becomes of a run when a write is carried out at once: the service has gone on, and these are the
turns that come next. -/
def afterWrite (s : Simulation) (ids : List UInt32) (field : Field) (value : Json) (service : Service)
    (turns : List Turn) : Simulation :=
  { s with
    service
    directory := (s.directory.write ids field value).1
    log := s.log ++ [.write ids field value (s.directory.write ids field value).2]
    turns }

section Handle

variable {e : Service.Event} {turns : List Turn} {service : Service} {t : Service.Ticket}
  (ht : s.turns = .event e :: turns) (he : endsFlush e = false)

include ht he

theorem settle_read (hs : s.service.step e = (service, [.read t id])) (hh : s.holding = [])
    (hp : Ordered.get? id.value s.replies = none) {reply : Directory.Record}
    (hr : (s.directory.read id.value EdgeRecord.fields).2 = .ok reply) (fuel : Nat) :
    settle (fuel + 1) s = settle fuel { s with
      service
      directory := { s.directory with reads := s.directory.reads + 1 }
      log := s.log ++ [.read id (.ok reply)]
      turns := .event (.record t (.ok reply) (s.isOnline id)) :: turns } := by
  simp only [settle_event ht, handle, hs, he, Bool.false_eq_true, if_false, List.foldl_cons,
    List.foldl_nil, act, makeCall, hh, List.contains_nil, callDirectory, hp, hr, Except.map,
    Option.getD_none, next]
  rfl

theorem settle_write {field : Field} {value : Json}
    (hs : s.service.step e = (service, [.write t id field value])) (hh : s.holding = [])
    (hr : s.refusing = false) (fuel : Nat) :
    settle (fuel + 1) s =
      settle fuel (s.afterWrite [id.value] field value service (.event (.stored t) :: turns)) := by
  simp only [settle_event ht, handle, afterWrite, hs, he, Bool.false_eq_true, if_false, List.foldl_cons,
    List.foldl_nil, act, makeCall, hh, List.contains_nil, callDirectory, writeNow, hr, next]

theorem settle_attempt {field : Field} {value : Json}
    (hs : s.service.step e = (service, [.write t id field value])) (hh : s.holding = [])
    (fuel : Nat) :
    ∃ log, settle (fuel + 1) s = settle fuel { s with
      service
      directory := s.attempt s.directory id (some (.store field value))
      log
      turns := .event (.stored t) :: turns } := by
  by_cases hr : s.refusing = true
  · have hattempt : s.attempt s.directory id (some (.store field value)) = s.directory := by
      rw [attempt, if_pos hr]
    rw [hattempt]
    refine ⟨s.log ++ [.write [id.value] field value (.ok false)], ?_⟩
    simp only [settle_event ht, handle, hs, he, Bool.false_eq_true, if_false, List.foldl_cons,
      List.foldl_nil, act, makeCall, hh, List.contains_nil, callDirectory, writeNow, hr, if_true, next]
  · have hattempt : s.attempt s.directory id (some (.store field value)) =
        (s.directory.write [id.value] field value).1 := by
      rw [attempt, if_neg hr, carryOut]
    rw [hattempt]
    exact ⟨_, settle_write ht he hs hh (eq_false_of_ne_true hr) fuel⟩

theorem settle_finish {n : Nat} {answer : Service.Answer} {shown : Shown} {s' : Simulation}
    {outcome : Outcome} (hs : s.service.step e = (service, [.finish (.call n) answer]))
    (hw : s.waiting = [⟨n, shown, none⟩])
    (hp : ({ s with service, turns } : Simulation).present shown answer = (s', outcome))
    (hw' : s'.waiting = [⟨n, shown, none⟩]) (fuel : Nat) :
    settle (fuel + 1) s =
      settle fuel { s' with waiting := [], ended := s'.ended ++ [(n, outcome)] } := by
  have hfind : s.waiting.find? (·.command = n) = some ⟨n, shown, none⟩ := by simp [hw]
  have hend : s'.waiting.filter (·.command ≠ n) = [] := by simp [hw']
  simp only [settle_event ht, handle, hs, he, Bool.false_eq_true, if_false, List.foldl_cons,
    List.foldl_nil, act, finishCall, hfind, hp, endCommand, hend]

end Handle

section Call

/-- A run that has begun a call, and nothing else. -/
def calling (s : Simulation) (n : Nat) (shown : Shown) (e : Service.Event) : Simulation :=
  { s with log := [], ended := [], waiting := [⟨n, shown, none⟩], turns := [.event e] }

theorem Ready.call_eq (hc : s.Ready id) (n : Nat) (shown : Shown) (e : Service.Event) :
    ({ s with log := [], ended := [] } : Simulation).call n shown e =
      (s.calling n shown e).settleAll := by
  simp only [call, expect, later, hc.turns, hc.waiting]
  rfl

theorem run_of_perform {n : Nat} {c : Command} {s' : Simulation} {outcome : Outcome}
    (hp : ({ s with log := [], ended := [] } : Simulation).perform n c = s')
    (he : s'.ended = [(n, outcome)]) : s.run n c = (s', ⟨some outcome, [], s'.log⟩) := by
  simp [run, hp, he]

end Call

section Read

/-- A run in which a refresh has been answered with a reading of the record, and nothing else. -/
def afterReading (s : Simulation) (id : EdgeId) (n : Nat) (shown : Shown) (r : Directory.Record) :
    Simulation :=
  let reply := Directory.Memory.select id.value EdgeRecord.fields r
  { s.calling n shown (.refresh n id) with
    service := s.service.alone n (.reading id .answer)
    directory := { s.directory with reads := s.directory.reads + 1 }
    log := [.read id (.ok reply)]
    turns := [.event (.record (.call n) (.ok reply) (s.isOnline id))] }

variable {r : Directory.Record} (hc : s.Ready id) (hr : s.directory.record? id.value = some r)

include hc hr

/-- A refresh begins with a reading of the record, which is answered at once. -/
theorem settle_refresh (n : Nat) (shown : Shown) (fuel : Nat) :
    settle (fuel + 1) (s.calling n shown (.refresh n id)) =
      settle fuel (s.afterReading id n shown r) := by
  have hfound : (s.directory.read id.value EdgeRecord.fields).2 =
      .ok (Directory.Memory.select id.value EdgeRecord.fields r) := by
    simp [Directory.Memory.read, hc.reads, hr]
  exact settle_read (s := s.calling n shown (.refresh n id)) rfl rfl
    (Service.step_refresh hc.tasks n id) hc.holding hc.reply hfound fuel

/-- A refresh of a record that does not decode is answered with no edge. -/
theorem run_refresh_undecodable {error : RecordError}
    (hd : EdgeRecord.decodeFor id (Directory.Memory.select id.value EdgeRecord.fields r) = .error error)
    (n : Nat) (keep : Option String) : (s.run n (.refresh id keep)).2.outcome = some .nothing := by
  have hpresent (s' : Simulation) : s'.present (.edge keep) (.edge none) = (s', .nothing) := by
    cases keep <;> rfl
  obtain ⟨fuel, hf⟩ := settleAll_eq (s.calling n (.edge keep) (.refresh n id))
  have hbegin := (hc.call_eq n (.edge keep) (.refresh n id)).trans hf
  have hread := settle_refresh hc hr n (.edge keep) (fuel + 15)
  have hstep := Service.step_record_undecodable (n := n) (s := s.service) hd (s.isOnline id)
  have hend := settle_finish (s := s.afterReading id n (.edge keep) r) rfl rfl hstep rfl (hpresent _) rfl
    (fuel + 14)
  have hall := hbegin.trans (hread.trans (hend.trans (settle_nil rfl _)))
  have hrun : s.run n (.refresh id keep) = _ := run_of_perform hall rfl
  rw [hrun]

end Read

section Refresh

variable {r : Directory.Record} {record : EdgeRecord} {e : Edge} {notice : Option Edge.Notice}
  (hc : s.Ready id) (hr : s.directory.record? id.value = some r)
  (hd : EdgeRecord.decodeFor id (Directory.Memory.select id.value EdgeRecord.fields r) = .ok record)
  (hu : (Edge.ofRecord record).update (.online (s.isOnline id)) = (e, notice))

include hc hr hd hu

/-- A refresh makes an instance of what the record shows, keeps it and is answered with its edge,
whatever becomes of the write of its activation. -/
theorem run_refresh (n : Nat) (keep : Option String) :
    ∃ log, s.run n (.refresh id keep) =
      ({ s with
          service := { s.service.made id e with
            cache := s.service.cache.putEdge id s.service.instances.length, tasks := [] }
          directory := s.attempt { s.directory with reads := s.directory.reads + 1 } id
            (notice.map effect)
          edges := (keep.map fun name => Ordered.insert name s.service.instances.length s.edges).getD
            s.edges
          turns := [], waiting := [], log, ended := [(n, .edge e)] },
        ⟨some (.edge e), [], log⟩) := by
  have hmade := s.service.instance?_made id e
  have hpresent (s' : Simulation) (hi : s'.service.instance? s.service.instances.length =
      (s.service.made id e).instance? s.service.instances.length) :
      s'.present (.edge keep) (.edge (some s.service.instances.length)) =
        ({ s' with edges := (keep.map fun name =>
            Ordered.insert name s.service.instances.length s'.edges).getD s'.edges }, .edge e) := by
    cases keep <;> simp [present, keepEdge, edge?, hi, hmade, edgeOutcome]
  obtain ⟨fuel, hf⟩ := settleAll_eq (s.calling n (.edge keep) (.refresh n id))
  have hbegin := (hc.call_eq n (.edge keep) (.refresh n id)).trans hf
  let reading := s.afterReading id n (.edge keep) r
  have hread := settle_refresh hc hr n (.edge keep) (fuel + 15)
  match notice, hu with
  | none, hu =>
    have hstep := Service.step_record_quiet (n := n) (s := s.service) hd hu
    have hend := settle_finish (s := reading) rfl rfl hstep rfl (hpresent _ rfl) rfl (fuel + 14)
    have hall := hbegin.trans (hread.trans (hend.trans (settle_nil rfl _)))
    have hquiet (m : Directory.Memory) : s.attempt m id (none.map effect) = m := by
      rw [attempt, Option.map_none, carryOut, ite_self]
    rw [hquiet]
    exact ⟨_, run_of_perform hall rfl⟩
  | some notice, hu =>
    have hactivated : notice = .activated := by
      simp only [Edge.update] at hu
      split at hu
      · exact (Option.some.inj (Prod.mk.inj hu).2).symm
      · cases hu
    subst hactivated
    have hown : e.id = id :=
      (Service.id_of_update_ofRecord hu).trans (EdgeRecord.id_of_decodeFor hd)
    have hcurrent : (s.service.made id e).isCurrent ⟨e, (s.service.generations.advance id).2⟩ = true := by
      rw [Service.isCurrent, hown]
      exact s.service.isCurrent_made id e
    have hstep := Service.step_record_activated (n := n) (s := s.service) hd hu
    have hstored := Service.step_activated hmade hcurrent n
    rw [hown] at hstored
    obtain ⟨log, hwrite⟩ :=
      settle_attempt (s := reading) rfl rfl hstep hc.holding (fuel + 14)
    let written : Simulation := { reading with
      service := (s.service.made id e).alone n (.activating s.service.instances.length .answer)
      directory := s.attempt reading.directory id (some (effect .activated))
      log
      turns := [.event (.stored (.call n))] }
    have hend := settle_finish (s := written) rfl rfl hstored rfl (hpresent _ rfl) rfl (fuel + 13)
    have hall := hbegin.trans (hread.trans (hwrite.trans (hend.trans (settle_nil rfl _))))
    exact ⟨log, run_of_perform hall rfl⟩

end Refresh

section Update

variable {edge : String} {ref : EdgeRef} {i : Instance} {u : Edge.Update} {e : Edge}
  {notice : Option Edge.Notice} (hc : s.Calm id) (hk : s.kept? edge = some ref)
  (hi : s.service.instance? ref = some i) (hid : i.edge.id = id)
  (hg : s.service.generations.isCurrent id i.generation = true)
  (hu : i.edge.update u = (e, notice))

include hc hk hi hid hg hu

/-- An update of an instance that is current is answered once its write has been carried out. -/
theorem run_update (n : Nat) :
    ∃ pending log, s.run n (.update edge u) =
      ({ s with
          service :=
            { s.service.updated ref i e with
              worker := { s.service.worker with pending }, tasks := [] }
          directory := carryOut s.directory id (notice.map effect)
          turns := [], waiting := [], log, ended := [(n, .edge e)] },
        ⟨some (.edge e), [], log⟩) := by
  have he : e.id = id := by
    have h := i.edge.id_update u
    rw [hu, hid] at h
    exact h
  have hupdated : (s.service.updated ref i e).instance? ref = some { i with edge := e } :=
    List.getElem?_set_self (List.getElem?_eq_some_iff.mp hi).1
  have hpresent (s' : Simulation) (hi : s'.service.instance? ref =
      (s.service.updated ref i e).instance? ref) :
      s'.present (.updated ref) .done = (s', .edge e) := by
    simp [present, edge?, hi, hupdated, edgeOutcome]
  let begun := s.calling n (.updated ref) (.update n ref u)
  obtain ⟨fuel, hf⟩ := settleAll_eq begun
  have hbegin : ({ s with log := [], ended := [] } : Simulation).perform n (.update edge u) =
      settle (fuel + 16) begun := by
    have hkept : ({ s with log := [], ended := [] } : Simulation).kept? edge = some ref := hk
    rw [perform, update, hkept]
    exact (hc.ready.call_eq n (.updated ref) (.update n ref u)).trans hf
  match notice, hu with
  | none, hu =>
    have hstep := Service.step_update_quiet hc.tasks hi n hu
    have hend := settle_finish (s := begun) rfl rfl hstep rfl (hpresent _ rfl) rfl (fuel + 15)
    have hall := hbegin.trans (hend.trans (settle_nil rfl _))
    exact ⟨s.service.worker.pending, _, run_of_perform hall rfl⟩
  | some notice, hu =>
    cases hn : effect notice with
    | mark signal =>
      have hstep := Service.step_update_marked hc.tasks hi n hu hn
      have hend := settle_finish (s := begun) rfl rfl hstep rfl (hpresent _ rfl) rfl (fuel + 15)
      have hall := hbegin.trans (hend.trans (settle_nil rfl _))
      rw [Option.map_some, hn]
      exact ⟨s.service.worker.pending.mark signal e.id, _, run_of_perform hall rfl⟩
    | store field value =>
      have hstep := Service.step_update_stored hc.tasks hi n hu hn (by rw [he]; exact hg)
      rw [he] at hstep
      let writing := begun.afterWrite [id.value] field value
        ((s.service.updated ref i e).alone n .storing) [.event (.stored (.call n))]
      have hwrite : settle (fuel + 16) begun = settle (fuel + 15) writing :=
        settle_write (s := begun) rfl rfl hstep hc.holding hc.refusing _
      have hstored := (s.service.updated ref i e).step_stored n
      have hend := settle_finish (s := writing) rfl rfl hstored rfl (hpresent _ rfl) rfl (fuel + 14)
      have hall := hbegin.trans (hwrite.trans (hend.trans (settle_nil rfl _)))
      rw [Option.map_some, hn]
      exact ⟨s.service.worker.pending, _, run_of_perform hall rfl⟩

end Update

end EdgeFleet.Simulation
