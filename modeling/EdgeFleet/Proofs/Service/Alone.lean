import EdgeFleet.Service.Step

namespace EdgeFleet.Service

open Directory (Field)
open WriteBack (effect)

variable {s : Service} {n : Nat} {id : EdgeId}

/-- The service while a call waits, and no other does. -/
def alone (s : Service) (n : Nat) (task : Task) : Service := { s with tasks := [(.call n, task)] }

theorem task?_alone (s : Service) (n : Nat) (task : Task) :
    (s.alone n task).task? (.call n) = some task := by
  simp [task?, alone]

theorem await_alone (s : Service) (n : Nat) (task next : Task) :
    (s.alone n task).await (.call n) next = s.alone n next := by
  simp [await, alone]

theorem close_alone (s : Service) (n : Nat) (task : Task) :
    (s.alone n task).close (.call n) = { s with tasks := [] } := by
  simp [close, alone]

theorem finish_alone (s : Service) (n : Nat) (task : Task) (answer : Answer) :
    (s.alone n task).finish (.call n) answer = ({ s with tasks := [] }, [.finish (.call n) answer]) := by
  rw [finish, close_alone]

theorem install_alone {ref : EdgeRef} {i : Instance} (hi : s.instance? ref = some i)
    (hc : s.isCurrent i = true) (task : Task) :
    (s.alone n task).install (.call n) ref .answer =
      ({ s with cache := s.cache.putEdge i.edge.id ref, tasks := [] },
        [.finish (.call n) (.edge (some ref))]) := by
  have hi' : (s.alone n task).instance? ref = some i := hi
  have hc' : (s.alone n task).generations.isCurrent i.edge.id i.generation = true := hc
  simp only [install, hi', Generations.installIfCurrent, hc', if_true]
  exact finish_alone { s with cache := s.cache.putEdge i.edge.id ref } n task _

theorem step_refresh (ht : s.tasks = []) (n : Nat) (id : EdgeId) :
    s.step (.refresh n id) = (s.alone n (.reading id .answer), [.read (.call n) id]) := by
  simp [step, whenFree, task?, ht, startReading, await, alone]

/-- The service with an instance of the next generation of an edge. -/
def made (s : Service) (id : EdgeId) (e : Edge) : Service :=
  { s with
    generations := (s.generations.advance id).1
    instances := s.instances ++ [⟨e, (s.generations.advance id).2⟩] }

theorem instance?_made (s : Service) (id : EdgeId) (e : Edge) :
    (s.made id e).instance? s.instances.length = some ⟨e, (s.generations.advance id).2⟩ :=
  List.getElem?_concat_length

theorem isCurrent_made (s : Service) (id : EdgeId) (e : Edge) :
    (s.made id e).generations.isCurrent id (s.generations.advance id).2 = true :=
  (Generations.isCurrent_advance_self _ _ _).mpr rfl

theorem id_of_update_ofRecord {record : EdgeRecord} {u : Edge.Update} {e : Edge}
    {notice : Option Edge.Notice} (hu : (Edge.ofRecord record).update u = (e, notice)) :
    e.id = record.id := by
  have h := (Edge.ofRecord record).id_update u
  rw [hu] at h
  exact h

theorem step_record_undecodable {reply : Directory.Record} {error : RecordError}
    (hd : EdgeRecord.decodeFor id reply = .error error) (online : Bool) :
    (s.alone n (.reading id .answer)).step (.record (.call n) (.ok reply) online) =
      ({ s with tasks := [] }, [.finish (.call n) (.edge none)]) := by
  simp only [step, task?_alone, recordRead, hd, resume]
  exact finish_alone s n _ _

section Record

variable {reply : Directory.Record} {record : EdgeRecord} {online : Bool} {e : Edge}
  (hd : EdgeRecord.decodeFor id reply = .ok record)

include hd

/-- An edge that is read and leads to no write is kept and answered with at once. -/
theorem step_record_quiet (hu : (Edge.ofRecord record).update (.online online) = (e, none)) :
    (s.alone n (.reading id .answer)).step (.record (.call n) (.ok reply) online) =
      ({ s.made id e with cache := s.cache.putEdge id s.instances.length, tasks := [] },
        [.finish (.call n) (.edge (some s.instances.length))]) := by
  have hid := EdgeRecord.id_of_decodeFor hd
  subst hid
  have he := id_of_update_ofRecord hu
  have hcurrent : (s.made record.id e).isCurrent ⟨e, (s.generations.advance record.id).2⟩ = true := by
    rw [isCurrent, he]
    exact s.isCurrent_made record.id e
  simp only [step, task?_alone, recordRead, hd, buildInstance, hu, Option.bind_none]
  have hinstall := install_alone (n := n) (s.instance?_made record.id e) hcurrent
    (.reading record.id .answer)
  rwa [he] at hinstall

theorem step_record_activated
    (hu : (Edge.ofRecord record).update (.online online) = (e, some .activated)) :
    (s.alone n (.reading id .answer)).step (.record (.call n) (.ok reply) online) =
      ((s.made id e).alone n (.activating s.instances.length .answer),
        [.write (.call n) id .state (.text EdgeState.active.name)]) := by
  have hid := EdgeRecord.id_of_decodeFor hd
  subst hid
  have he := id_of_update_ofRecord hu
  have hcurrent : ((s.alone n (.reading record.id .answer)).generations.advance record.id).1.isCurrent
      record.id ((s.alone n (.reading record.id .answer)).generations.advance record.id).2 = true :=
    s.isCurrent_made record.id e
  simp only [step, task?_alone, recordRead, hd, buildInstance, hu, Option.bind_some, effect, he,
    WriteBack.immediate?, hcurrent, if_true]
  rw [← await_alone (s.made record.id e) n (.reading record.id .answer)]
  rfl

end Record

/-- A current instance is kept once the write of its activation has ended, well or not. -/
theorem step_activated {ref : EdgeRef} {i : Instance} (hi : s.instance? ref = some i)
    (hc : s.isCurrent i = true) (n : Nat) :
    (s.alone n (.activating ref .answer)).step (.stored (.call n)) =
      ({ s with cache := s.cache.putEdge i.edge.id ref, tasks := [] },
        [.finish (.call n) (.edge (some ref))]) := by
  simp only [step, task?_alone]
  exact install_alone hi hc _

section Update

/-- The service with another edge in an instance. -/
def updated (s : Service) (ref : EdgeRef) (i : Instance) (e : Edge) : Service :=
  { s with instances := s.instances.set ref { i with edge := e } }

variable {ref : EdgeRef} {i : Instance} {u : Edge.Update} {e : Edge}
  (ht : s.tasks = []) (hi : s.instance? ref = some i)

include ht

theorem whenFree_alone (n : Nat) (call : Ticket → Service × List Action) :
    s.whenFree n call = call (.call n) := by
  simp [whenFree, task?, ht]

theorem finish_of_tasks (t : Ticket) (answer : Answer) :
    s.finish t answer = ({ s with tasks := [] }, [.finish t answer]) := by
  simp [finish, close, ht]

include hi

theorem step_update_quiet (n : Nat) (hu : i.edge.update u = (e, none)) :
    s.step (.update n ref u) =
      ({ s.updated ref i e with tasks := [] }, [.finish (.call n) .done]) := by
  simp only [step, whenFree_alone ht, updateInstance, hi, hu, Option.map_none]
  exact finish_of_tasks (s := s.updated ref i e) ht _ _

theorem step_update_marked (n : Nat) {notice : Edge.Notice} {signal : WriteBack.Signal}
    (hu : i.edge.update u = (e, some notice)) (hn : effect notice = .mark signal) :
    s.step (.update n ref u) =
      ({ s.updated ref i e with worker := (s.worker.step (.mark signal e.id)).1, tasks := [] },
        [.finish (.call n) .done]) := by
  simp only [step, whenFree_alone ht, updateInstance, hi, hu, Option.map_some, hn, stepWorker]
  exact finish_of_tasks (s := { s.updated ref i e with worker := _ }) ht _ _

theorem step_update_stored (n : Nat) {notice : Edge.Notice} {field : Field} {value : Json}
    (hu : i.edge.update u = (e, some notice)) (hn : effect notice = .store field value)
    (hc : s.generations.isCurrent e.id i.generation = true) :
    s.step (.update n ref u) =
      ((s.updated ref i e).alone n .storing, [.write (.call n) e.id field value]) := by
  simp only [step, whenFree_alone ht, updateInstance, hi, hu, Option.map_some, hn,
    WriteBack.immediate?, hc, if_true]
  simp only [await, alone, updated, ht]
  rfl

end Update

theorem step_stored (s : Service) (n : Nat) :
    (s.alone n .storing).step (.stored (.call n)) =
      ({ s with tasks := [] }, [.finish (.call n) .done]) := by
  simp only [step, task?_alone]
  exact finish_alone s n _ _

end EdgeFleet.Service
