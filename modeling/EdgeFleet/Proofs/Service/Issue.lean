import EdgeFleet.Proofs.Edge.Change
import EdgeFleet.Proofs.Service.Origin
import EdgeFleet.Proofs.WriteBack.Drain

namespace EdgeFleet.Service

open Directory (Field)
open WriteBack (effect immediate?)

/-- The write that an action asks the directory for. -/
def Action.write? : Action → Option Directory.Write
  | .write _ id field value => some ⟨[id.value], field, value⟩
  | .writeBatch _ b => some ⟨b.ids, b.field, .text b.stamp⟩
  | .confirm .. | .search .. | .read .. | .queue _ | .finish .. => none

/-- The writes among some actions. -/
def writesOf (actions : List Action) : List Directory.Write := actions.filterMap Action.write?

/-- An update of an instance: what its edge was, and its generation. -/
structure SetterCall where
  ref : EdgeRef
  generation : Nat
  before : Edge
  update : Edge.Update

namespace SetterCall

/-- The edge as it is from then on. -/
def after (c : SetterCall) : Edge := (c.before.update c.update).1

def made (c : SetterCall) : Instance := ⟨c.after, c.generation⟩

/-- What the update stores if some generations are current. -/
def stores? (c : SetterCall) (generations : Generations) : Option (Field × Json) :=
  (c.before.update c.update).2.bind fun n =>
    immediate? generations c.after.id c.generation (effect n)

/-- The write of it. -/
def writes (c : SetterCall) (generations : Generations) : List Directory.Write :=
  match c.stores? generations with
  | some (field, value) => [⟨[c.after.id.value], field, value⟩]
  | none => []

theorem writes_of_some {c : SetterCall} {generations : Generations} {field : Field} {value : Json}
    (h : c.stores? generations = some (field, value)) :
    c.writes generations = [⟨[c.after.id.value], field, value⟩] := by
  simp only [writes, h]

theorem writes_of_none {c : SetterCall} {generations : Generations}
    (h : c.stores? generations = none) : c.writes generations = [] := by
  simp only [writes, h]

end SetterCall

/-- The update of a new edge, which is told whether it is online. -/
def firstCall (s : Service) (record : EdgeRecord) (online : Bool) : SetterCall where
  ref := s.instances.length
  generation := (s.generations.advance record.id).2
  before := Edge.ofRecord record
  update := .online online

/-- The update that an event makes: one that a call asks for, or that of a new edge. -/
def setterCall? (s : Service) : Event → Option SetterCall
  | .update n ref u =>
    if (s.task? (.call n)).isNone then
      (s.instance? ref).map fun i => ⟨ref, i.generation, i.edge, u⟩
    else none
  | .record t (.ok reply) online =>
    match s.task? t with
    | some (.reading id _) =>
      match EdgeRecord.decodeFor id reply with
      | .ok record => some (s.firstCall record online)
      | .error _ => none
    | _ => none
  | _ => none

/-- A task goes on without a write; instances, generations and the worker are left alone. -/
structure Silent (s : Service) (r : Service × List Action) : Prop where
  instances : r.1.instances = s.instances
  generations : r.1.generations = s.generations
  worker : r.1.worker = s.worker
  writes : writesOf r.2 = []

section Silent

variable (s : Service) (t : Ticket)

theorem silent_skip : Silent s (s, []) := ⟨rfl, rfl, rfl, rfl⟩

theorem silent_finish (answer : Answer) : Silent s (s.finish t answer) := ⟨rfl, rfl, rfl, rfl⟩

theorem silent_startReading (id : EdgeId) (purpose : Purpose) :
    Silent s (s.startReading t id purpose) := ⟨rfl, rfl, rfl, rfl⟩

variable {s} in
theorem Silent.of_cache {cache : Cache EdgeRef} {r : Service × List Action}
    (h : Silent { s with cache } r) : Silent s r :=
  ⟨h.instances, h.generations, h.worker, h.writes⟩

theorem keepFound_eq_cache (id : EdgeId) (found : Option EdgeRef) :
    ∃ cache, s.keepFound id found = { s with cache } := by
  cases found with
  | none => exact ⟨s.cache, rfl⟩
  | some ref => exact ⟨_, rfl⟩

theorem silent_resolveGrants (user : UserInfo) (granted : List (EdgeId × Role))
    (grants : List DeviceGrant) : Silent s (s.resolveGrants t user granted grants) := by
  induction grants generalizing s granted with
  | nil => exact (silent_finish _ t _).of_cache
  | cons g rest ih =>
    simp only [resolveGrants]
    split
    · exact (ih _ _).of_cache.of_cache
    · exact (silent_startReading _ t _ _).of_cache

theorem silent_resume (found : Option EdgeRef) (purpose : Purpose) :
    Silent s (s.resume t found purpose) := by
  cases purpose with
  | answer => exact silent_finish s t _
  | warmUp => exact ⟨rfl, rfl, rfl, rfl⟩
  | login l =>
    obtain ⟨cache, hk⟩ := s.keepFound_eq_cache l.current.id found
    simp only [resume, hk]
    exact (silent_resolveGrants _ t _ _ _).of_cache

theorem silent_install (ref : EdgeRef) (purpose : Purpose) :
    Silent s (s.install t ref purpose) := by
  unfold install
  split
  · exact silent_resume s t none purpose
  · exact (silent_resume _ t _ purpose).of_cache

theorem silent_whenFree (n : Nat) (call : Ticket → Service × List Action)
    (h : Silent s (call (.call n))) : Silent s (s.whenFree n call) := by
  unfold whenFree
  split
  · exact silent_skip s
  · exact h

theorem silent_lookUp (id : EdgeId) : Silent s (s.lookUp t id) := by
  unfold lookUp
  split
  · exact (silent_finish _ t _).of_cache
  · exact (silent_startReading _ t _ _).of_cache

theorem silent_startLogin (session : Option String) : Silent s (s.startLogin t session) := by
  unfold startLogin
  split
  · exact silent_finish s t _
  · exact ⟨rfl, rfl, rfl, rfl⟩

theorem silent_startSearch (apikey : String) : Silent s (s.startSearch t apikey) := by
  unfold startSearch
  split
  · exact silent_finish s t _
  · exact ⟨rfl, rfl, rfl, rfl⟩

theorem silent_sessionConfirmed (result : Except AuthError SessionInfo) :
    Silent s (s.sessionConfirmed t result) := by
  cases result with
  | error e => exact silent_finish s t _
  | ok info => exact silent_resolveGrants s t _ _ _

theorem silent_warmUp (id : EdgeId) : Silent s (s.warmUp id) := by
  unfold warmUp
  split
  · exact silent_skip s
  · exact ⟨rfl, rfl, rfl, rfl⟩

theorem silent_warmUpAll (ids : List EdgeId) : Silent s (s.warmUpAll ids) := by
  induction ids generalizing s with
  | nil => exact silent_skip s
  | cons id rest ih =>
    have h := silent_warmUp s id
    have hr := ih (s.warmUp id).1
    refine ⟨hr.instances.trans h.instances, hr.generations.trans h.generations,
      hr.worker.trans h.worker, ?_⟩
    simp only [warmUpAll, writesOf, List.filterMap_append]
    rw [← writesOf, ← writesOf, h.writes, hr.writes]
    rfl

theorem silent_searchDone (result : Except DirectoryError (List UInt32)) :
    Silent s (s.searchDone t result) := by
  cases result with
  | error e => exact silent_finish s t _
  | ok ids =>
    have h := silent_warmUpAll (s.close t) (validIds ids)
    refine ⟨h.instances, h.generations, h.worker, ?_⟩
    simp only [searchDone, writesOf, List.filterMap_append]
    rw [← writesOf, h.writes]
    rfl

end Silent

/-- One instance is as the update leaves it, and the others are as they were. -/
structure SetterCall.Stored (c : SetterCall) (s s' : Service) : Prop where
  own : s'.instance? c.ref = some c.made
  others : ∀ other, other ≠ c.ref → s'.instance? other = s.instance? other

/-- What an event does to instances, worker and directory. -/
inductive Issue (s : Service) (e : Event) (r : Service × List Action) : Prop
  | silent (hc : s.setterCall? e = none) (h : Silent s r)
  | setter (c : SetterCall) (hc : s.setterCall? e = some c)
      (hi : c.Stored s r.1)
      (hw : writesOf r.2 = c.writes r.1.generations)
      (hk : r.1.worker = s.worker ∨
        ∃ signal, r.1.worker = (s.worker.step (.mark signal c.after.id)).1)
  | worker (we : WriteBack.Worker.Event) (he : e = .worker we) (hr : r = s.stepWorker we)

theorem stored_set {s s' : Service} {c : SetterCall} {i : Instance}
    (hi : s.instance? c.ref = some i) (hs : s'.instances = s.instances.set c.ref c.made) :
    c.Stored s s' := by
  have hlt : c.ref < s.instances.length := (List.getElem?_eq_some_iff.mp hi).1
  constructor
  · rw [instance?, hs, List.getElem?_set_self hlt]
  · intro other ho
    rw [instance?, hs, List.getElem?_set_ne (fun he => ho he.symm)]
    rfl

theorem stored_concat {s s' : Service} {c : SetterCall} (hr : c.ref = s.instances.length)
    (hs : s'.instances = s.instances ++ [c.made]) : c.Stored s s' := by
  constructor
  · rw [instance?, hs, hr, List.getElem?_concat_length]
  · intro other ho
    rw [hr] at ho
    rw [instance?, instance?, hs]
    rcases Nat.lt_or_gt_of_ne ho with hlt | hgt
    · rw [List.getElem?_append_left hlt]
    · rw [List.getElem?_eq_none (Nat.le_of_lt hgt), List.getElem?_eq_none (by simp; omega)]

theorem issue_update (s : Service) (n : Nat) (ref : EdgeRef) (u : Edge.Update) :
    Issue s (.update n ref u) (s.step (.update n ref u)) := by
  simp only [step]
  cases hn : s.task? (.call n) with
  | some task =>
    simp only [whenFree, hn, Option.isSome_some, if_true]
    exact .silent (by simp [setterCall?, hn]) (silent_skip s)
  | none =>
    simp only [whenFree, hn, Option.isSome_none, Bool.false_eq_true, if_false]
    cases hi : s.instance? ref with
    | none =>
      simp only [updateInstance, hi]
      exact .silent (by simp [setterCall?, hn, hi]) (silent_finish s _ _)
    | some i =>
      have hc : s.setterCall? (.update n ref u) = some ⟨ref, i.generation, i.edge, u⟩ := by
        simp [setterCall?, hn, hi]
      simp only [updateInstance, hi]
      cases hnote : (i.edge.update u).2 with
      | none =>
        have hnone : SetterCall.stores? ⟨ref, i.generation, i.edge, u⟩ s.generations = none := by
          simp only [SetterCall.stores?, hnote, Option.bind_none]
        exact .setter _ hc (stored_set hi rfl) (SetterCall.writes_of_none hnone).symm (Or.inl rfl)
      | some notice =>
        simp only [Option.map_some]
        have hs : SetterCall.stores? ⟨ref, i.generation, i.edge, u⟩ s.generations =
            immediate? s.generations (i.edge.update u).1.id i.generation (effect notice) := by
          simp only [SetterCall.stores?, hnote, Option.bind_some]
          rfl
        cases heff : effect notice with
        | mark signal =>
          rw [heff] at hs
          exact .setter _ hc (stored_set hi rfl) (SetterCall.writes_of_none hs).symm
            (Or.inr ⟨signal, rfl⟩)
        | store field value =>
          rw [heff] at hs
          dsimp only
          split
          · rename_i hnone
            exact .setter _ hc (stored_set hi rfl) (SetterCall.writes_of_none (hs.trans hnone)).symm
              (Or.inl rfl)
          · rename_i hsome
            exact .setter _ hc (stored_set hi rfl) (SetterCall.writes_of_some (hs.trans hsome)).symm
              (Or.inl rfl)

theorem issue_buildInstance {s : Service} {e : Event} {t : Ticket} {purpose : Purpose}
    {record : EdgeRecord} {online : Bool}
    (hc : s.setterCall? e = some (s.firstCall record online)) :
    Issue s e (s.buildInstance t record online purpose) := by
  simp only [buildInstance]
  split
  · rename_i field value hsome
    have hw : (s.firstCall record online).stores? (s.generations.advance record.id).1 =
        some (field, value) := hsome
    exact .setter _ hc (stored_concat rfl rfl) (SetterCall.writes_of_some hw).symm (Or.inl rfl)
  · rename_i hnone
    have hw : (s.firstCall record online).stores? (s.generations.advance record.id).1 = none := hnone
    have hs := silent_install { s with
      generations := (s.generations.advance record.id).1
      instances := s.instances ++
        [⟨((Edge.ofRecord record).update (.online online)).1,
          (s.generations.advance record.id).2⟩] } t s.instances.length purpose
    refine .setter _ hc (stored_concat rfl hs.instances) ?_ (Or.inl hs.worker)
    rw [hs.writes, hs.generations]
    exact (SetterCall.writes_of_none hw).symm

theorem issue_record (s : Service) (t : Ticket)
    (result : Except DirectoryError Directory.Record) (online : Bool) :
    Issue s (.record t result online) (s.step (.record t result online)) := by
  simp only [step]
  split
  · rename_i id purpose ht
    cases result with
    | error e => exact .silent rfl (silent_resume s t none purpose)
    | ok reply =>
      cases hr : EdgeRecord.decodeFor id reply with
      | error e =>
        rw [recordRead_of_decodeFor_error s t purpose hr]
        exact .silent (by simp [setterCall?, ht, hr]) (silent_resume s t none purpose)
      | ok record =>
        have hid := EdgeRecord.id_of_decodeFor hr
        subst hid
        simp only [recordRead, hr]
        exact issue_buildInstance (by simp [setterCall?, ht, hr])
  · rename_i ht
    refine .silent ?_ (silent_skip s)
    cases result with
    | error e => rfl
    | ok reply => simp only [setterCall?]

/-- Every event is silent, or updates one instance, or is the worker's. -/
theorem issue_step (s : Service) (e : Event) : Issue s e (s.step e) := by
  cases e with
  | lookUp n id =>
    simp only [step]
    refine .silent rfl (silent_whenFree s n _ ?_)
    exact silent_lookUp s _ id
  | refresh n id =>
    simp only [step]
    refine .silent rfl (silent_whenFree s n _ ?_)
    exact silent_startReading s _ id _
  | logIn n session =>
    simp only [step]
    refine .silent rfl (silent_whenFree s n _ ?_)
    exact silent_startLogin s _ session
  | resolve n apikey =>
    simp only [step]
    refine .silent rfl (silent_whenFree s n _ ?_)
    exact silent_startSearch s _ apikey
  | findUser n id =>
    simp only [step]
    refine .silent rfl (silent_whenFree s n _ ?_)
    exact (silent_finish _ _ _).of_cache
  | update n ref u => exact issue_update s n ref u
  | drop n => exact .silent rfl ⟨rfl, rfl, rfl, rfl⟩
  | confirmed t result =>
    simp only [step]
    split
    · exact .silent rfl (silent_sessionConfirmed s t result)
    · exact .silent rfl (silent_skip s)
  | searched t result =>
    simp only [step]
    split
    · exact .silent rfl (silent_searchDone s t result)
    · exact .silent rfl (silent_skip s)
  | turn t =>
    simp only [step]
    split
    · exact .silent rfl (silent_startReading s t _ _)
    · exact .silent rfl (silent_skip s)
  | record t result online => exact issue_record s t result online
  | stored t =>
    simp only [step]
    split
    · exact .silent rfl (silent_install s t _ _)
    · exact .silent rfl (silent_finish s t _)
    · exact .silent rfl (silent_skip s)
  | worker we => exact .worker we rfl rfl

end EdgeFleet.Service
