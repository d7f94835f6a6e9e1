import EdgeFleet.Proofs.Service.Login

namespace EdgeFleet.Service

open Cache.Recent (Used)

/-- The task that an event is for. -/
def Event.ticket? : Event → Option Ticket
  | .lookUp n _ | .refresh n _ | .logIn n _ | .resolve n _ | .findUser n _ | .update n _ _
  | .drop n => some (.call n)
  | .confirmed t _ | .searched t _ | .turn t | .record t _ _ | .stored t => some t
  | .worker _ => none

/-- The task that an action asks something from outside for. -/
def Action.request? : Action → Option Ticket
  | .confirm t _ | .search t _ | .read t _ | .write t _ _ _ => some t
  | .writeBatch .. | .queue _ | .finish .. => none

def Ticket.permits : Ticket → Nat
  | .call _ => 0
  | .warmUp _ => 1

/-- Whether a task may read an edge for the purpose. -/
def Purpose.Suits : Purpose → Ticket → Prop
  | .warmUp, .warmUp _ | .answer, .call _ | .login _, .call _ => True
  | .warmUp, .call _ | .answer, .warmUp _ | .login _, .warmUp _ => False

/-- Whether a task of the ticket may wait for this. -/
def Task.Suits : Task → Ticket → Prop
  | .queued _, t => Purpose.warmUp.Suits t
  | .reading _ purpose, t | .activating _ purpose, t => purpose.Suits t
  | .confirming, t | .searching, t | .storing, t => Purpose.answer.Suits t

/-- Every task waits for what it may wait for. -/
def Suited (s : Service) : Prop := ∀ t task, s.task? t = some task → task.Suits t

theorem close_of_task?_none {s : Service} {t : Ticket} (h : s.task? t = none) : s.close t = s := by
  have hf : s.tasks.filter (·.1 ≠ t) = s.tasks := by
    refine List.filter_eq_self.mpr fun p hp => ?_
    have hn := List.find?_eq_none.mp (Option.map_eq_none_iff.mp h) p hp
    simpa using hn
  rw [close, hf]

theorem whenFree_of_free {s : Service} {n : Nat} (h : s.task? (.call n) = none)
    (call : Ticket → Service × List Action) : s.whenFree n call = call (.call n) := by
  rw [whenFree, h]
  rfl

theorem call_of_suits {t : Ticket} (h : Purpose.answer.Suits t) : ∃ n, t = .call n := by
  cases t with
  | call n => exact ⟨n, rfl⟩
  | warmUp k => exact h.elim

/-- A reply to the reading of an edge that holds no record of it: an error, something that is no record,
or the record of another edge. -/
inductive Failed (id : EdgeId) : Except DirectoryError Directory.Record → Prop
  | error (e : DirectoryError) : Failed id (.error e)
  | malformed {reply : Directory.Record} {e : RecordError}
      (h : EdgeRecord.decode reply = .error e) : Failed id (.ok reply)
  | foreign {reply : Directory.Record} {record : EdgeRecord}
      (h : EdgeRecord.decode reply = .ok record) (hid : record.id ≠ id) : Failed id (.ok reply)

theorem failed_iff_decodeFor {id : EdgeId} {reply : Directory.Record} :
    Failed id (.ok reply) ↔ ∃ e, EdgeRecord.decodeFor id reply = .error e := by
  cases hr : EdgeRecord.decode reply with
  | error e =>
    have he : EdgeRecord.decodeFor id reply = .error e := by
      simp [EdgeRecord.decodeFor, hr, bind, Except.bind]
    exact iff_of_true (.malformed hr) ⟨e, he⟩
  | ok record =>
    by_cases hid : record.id = id
    · have he : EdgeRecord.decodeFor id reply = .ok record := by
        simp [EdgeRecord.decodeFor, hr, hid, bind, Except.bind, pure, Except.pure]
      apply iff_of_false
      · intro hf
        cases hf with
        | malformed h =>
          rw [hr] at h
          cases h
        | foreign h hne =>
          rw [hr] at h
          cases h
          exact hne hid
      · rintro ⟨e, h⟩
        rw [he] at h
        cases h
    · have he : EdgeRecord.decodeFor id reply = .error (.otherEdge record.id id) := by
        simp [EdgeRecord.decodeFor, hr, hid, bind, Except.bind]
      exact iff_of_true (.foreign hr hid) ⟨_, he⟩

theorem exists_decodeFor {id : EdgeId} {result : Except DirectoryError Directory.Record}
    (h : ¬ Failed id result) :
    ∃ reply record, result = .ok reply ∧ EdgeRecord.decodeFor id reply = .ok record := by
  cases result with
  | error e => exact absurd (.error e) h
  | ok reply =>
    cases hr : EdgeRecord.decodeFor id reply with
    | error e => exact absurd (failed_iff_decodeFor.mpr ⟨e, hr⟩) h
    | ok record => exact ⟨reply, record, rfl, hr⟩

theorem recordRead_of_failed (s : Service) (t : Ticket) {id : EdgeId} (purpose : Purpose)
    {result : Except DirectoryError Directory.Record} (h : Failed id result) (online : Bool) :
    s.recordRead t id purpose result online = s.resume t none purpose := by
  cases result with
  | error e => exact recordRead_error s t id purpose e online
  | ok reply =>
    obtain ⟨e, he⟩ := failed_iff_decodeFor.mp h
    exact recordRead_of_decodeFor_error s t purpose he online

theorem install_current (s : Service) (t : Ticket) {ref : EdgeRef} {i : Instance}
    (hi : s.instance? ref = some i) (hc : s.isCurrent i = true) (purpose : Purpose) :
    s.install t ref purpose = (s.withStore i.edge.id ref).resume t (some ref) purpose := by
  rw [isCurrent] at hc
  simp only [install, hi, Generations.installIfCurrent, hc, if_true]
  rfl

theorem buildInstance_made (s : Service) (t : Ticket) (record : EdgeRecord) (online : Bool)
    (purpose : Purpose) (h : ¬ (online = true ∧ record.state = .inactive)) :
    s.buildInstance t record online purpose =
      ((s.withInstance record online).withStore record.id s.instances.length).resume t
        (some s.instances.length) purpose := by
  have hi := instance?_withInstance_self s record online
  have hc := isCurrent_withInstance_self s record online
  rw [buildInstance_settled s t record online purpose h, install_current _ t hi hc, id_instanceOf]

/-- What a task that reads an edge, or waits for its activation, comes to when the answer is there. -/
inductive Fetched (s : Service) (t : Ticket) (purpose : Purpose) :
    Event → Service × List Action → Prop
  | failed {id : EdgeId} {result : Except DirectoryError Directory.Record} {online : Bool}
      (ht : s.task? t = some (.reading id purpose)) (hf : Failed id result) :
      Fetched s t purpose (.record t result online) (s.resume t none purpose)
  | begun {record : EdgeRecord} {reply : Directory.Record} {online : Bool}
      (ht : s.task? t = some (.reading record.id purpose))
      (hr : EdgeRecord.decodeFor record.id reply = .ok record)
      (h : online = true ∧ record.state = .inactive) :
      Fetched s t purpose (.record t (.ok reply) online)
        (s.withActivation t purpose record online,
          [.write t record.id .state (.text EdgeState.active.name)])
  | made {record : EdgeRecord} {reply : Directory.Record} {online : Bool}
      (ht : s.task? t = some (.reading record.id purpose))
      (hr : EdgeRecord.decodeFor record.id reply = .ok record)
      (h : ¬ (online = true ∧ record.state = .inactive)) :
      Fetched s t purpose (.record t (.ok reply) online)
        (((s.withInstance record online).withStore record.id s.instances.length).resume t
          (some s.instances.length) purpose)
  | installed {ref : EdgeRef} {i : Instance} (ht : s.task? t = some (.activating ref purpose))
      (hi : s.instance? ref = some i) (hc : s.isCurrent i = true) :
      Fetched s t purpose (.stored t) ((s.withStore i.edge.id ref).resume t (some ref) purpose)
  | superseded {ref : EdgeRef} {i : Instance} (ht : s.task? t = some (.activating ref purpose))
      (hi : s.instance? ref = some i) (hc : s.isCurrent i = false) :
      Fetched s t purpose (.stored t) (s.resume t (some ref) purpose)

theorem fetched_record {s : Service} {t : Ticket} {id : EdgeId} {purpose : Purpose}
    (ht : s.task? t = some (.reading id purpose))
    (result : Except DirectoryError Directory.Record) (online : Bool) :
    Fetched s t purpose (.record t result online) (s.step (.record t result online)) := by
  simp only [step, ht]
  by_cases hf : Failed id result
  · rw [recordRead_of_failed s t purpose hf]
    exact .failed ht hf
  · obtain ⟨reply, record, rfl, hr⟩ := exists_decodeFor hf
    have hid := EdgeRecord.id_of_decodeFor hr
    subst hid
    simp only [recordRead, hr]
    by_cases h : online = true ∧ record.state = .inactive
    · rw [buildInstance_begun s t record online purpose h]
      exact .begun ht hr h
    · rw [buildInstance_made s t record online purpose h]
      exact .made ht hr h

theorem fetched_stored {s : Service} (ha : Aligned s) {t : Ticket} {ref : EdgeRef}
    {purpose : Purpose} (ht : s.task? t = some (.activating ref purpose)) :
    Fetched s t purpose (.stored t) (s.step (.stored t)) := by
  obtain ⟨i, hi, -⟩ := ha.activating t ref purpose ht
  simp only [step, ht]
  cases hc : s.isCurrent i with
  | true =>
    rw [install_current s t hi hc]
    exact .installed ht hi hc
  | false =>
    rw [install_superseded s t hi hc]
    exact .superseded ht hi hc

/-- A login goes on to the first grant whose edge is not at hand, or else to its end. -/
inductive Resolved (s : Service) (t : Ticket) (user : UserInfo) (granted : List (EdgeId × Role))
    (grants : List DeviceGrant) (r : Service × List Action) : Prop
  | all (edges : Cache.Recent EdgeId EdgeRef) (used : Used s.cache.edges edges)
      (there : ∀ g ∈ grants, ∃ ref, s.cache.edges.peek? g.id = some ref)
      (goes : r = ({ s with cache := { s.cache with edges } } : Service).commit t user
        (granted ++ grantsOf grants))
  | upTo (edges : Cache.Recent EdgeId EdgeRef) (used : Used s.cache.edges edges)
      (front : List DeviceGrant) (g : DeviceGrant) (rest : List DeviceGrant)
      (split : grants = front ++ g :: rest)
      (there : ∀ h ∈ front, ∃ ref, s.cache.edges.peek? h.id = some ref)
      (absent : s.cache.edges.peek? g.id = none)
      (goes : r = ({ s with cache := { s.cache with edges } } : Service).startReading t g.id
        (.login ⟨user, granted ++ grantsOf front, g, rest⟩))

theorem resolved_cons {s s' : Service} {t : Ticket} {user : UserInfo}
    {granted : List (EdgeId × Role)} {g : DeviceGrant} {rest : List DeviceGrant}
    {r : Service × List Action} {edges : Cache.Recent EdgeId EdgeRef} {ref : EdgeRef}
    (hs : s' = { s with cache := { s.cache with edges } }) (hu : Used s.cache.edges edges)
    (hp : s.cache.edges.peek? g.id = some ref)
    (h : Resolved s' t user (granted ++ [(g.id, Role.ofText g.role)]) rest r) :
    Resolved s t user granted (g :: rest) r := by
  subst hs
  have hpeek (id : EdgeId) : edges.peek? id = s.cache.edges.peek? id := hu.peek?_eq id
  have happend (front : List DeviceGrant) :
      granted ++ [(g.id, Role.ofText g.role)] ++ grantsOf front = granted ++ grantsOf (g :: front) := by
    simp [grantsOf]
  cases h with
  | all edges' used there goes =>
    refine .all edges' (hu.trans used) ?_ (happend rest ▸ goes)
    intro h hm
    rcases List.mem_cons.mp hm with rfl | hm
    · exact ⟨ref, hp⟩
    · obtain ⟨ref', hr⟩ := there h hm
      exact ⟨ref', (hpeek h.id).symm.trans hr⟩
  | upTo edges' used front g' rest' split there absent goes =>
    subst split
    refine .upTo edges' (hu.trans used) (g :: front) g' rest' rfl ?_
      ((hpeek g'.id).symm.trans absent) (happend front ▸ goes)
    intro h hm
    rcases List.mem_cons.mp hm with rfl | hm
    · exact ⟨ref, hp⟩
    · obtain ⟨ref', hr⟩ := there h hm
      exact ⟨ref', (hpeek h.id).symm.trans hr⟩

theorem resolved_resolveGrants (s : Service) (t : Ticket) (user : UserInfo)
    (granted : List (EdgeId × Role)) (grants : List DeviceGrant) :
    Resolved s t user granted grants (s.resolveGrants t user granted grants) := by
  -- every grant uses an edge, so the service differs from one to the next
  induction grants generalizing s granted with
  | nil =>
    refine .all s.cache.edges .refl (fun g hm => absurd hm List.not_mem_nil) ?_
    simp [resolveGrants, grantsOf]
  | cons g rest ih =>
    have hu := Cache.Recent.used_touch s.cache.edges g.id
    cases hp : s.cache.edges.peek? g.id with
    | none =>
      refine .upTo _ hu [] g rest rfl (fun h hm => absurd hm List.not_mem_nil) hp ?_
      simp [resolveGrants, Cache.getEdge, Cache.Recent.get, hp, grantsOf]
    | some ref =>
      have hp' : (s.cache.edges.touch g.id).peek? g.id = some ref := by
        rw [Cache.Recent.peek?_touch, hp]
      have hkept : (({ s with cache := { s.cache with edges := s.cache.edges.touch g.id } } :
          Service).keepFound g.id (some ref)) =
          { s with cache :=
            { s.cache with edges := (s.cache.edges.touch g.id).touch g.id } } := by
        simp only [keepFound, Cache.putEdgeIfAbsent, Cache.getEdge, Cache.Recent.get, hp']
      have hgo : s.resolveGrants t user granted (g :: rest) =
          (({ s with cache := { s.cache with edges := s.cache.edges.touch g.id } } :
            Service).keepFound g.id (some ref)).resolveGrants t user
              (granted ++ [(g.id, Role.ofText g.role)]) rest := by
        simp only [resolveGrants, Cache.getEdge, Cache.Recent.get, hp]
      rw [hgo]
      exact resolved_cons hkept (hu.trans (Cache.Recent.used_touch _ _)) hp (ih _ _)

/-- A task comes to its end with an answer and gives back what it holds, or it waits with a request. -/
inductive Moved (t : Ticket) (s : Service) (r : Service × List Action) : Prop
  | ends (answer : Answer) (tasks : r.1.tasks = (s.close t).tasks)
      (warmUps : r.1.warmUps = s.warmUps) (permits : r.1.permits = s.permits + t.permits)
      (actions : r.2 = [.finish t answer])
  | waits (task : Task) (suits : task.Suits t) (request : Action)
      (asks : request.request? = some t) (tasks : r.1.tasks = (s.await t task).tasks)
      (warmUps : r.1.warmUps = s.warmUps) (permits : r.1.permits = s.permits)
      (actions : r.2 = [request])

section Moved

variable {s : Service} {t : Ticket} {r : Service × List Action}

theorem Moved.of_shared {shared : Service} (h : Moved t shared r) (tasks : shared.tasks = s.tasks)
    (warmUps : shared.warmUps = s.warmUps) (permits : shared.permits = s.permits) :
    Moved t s r := by
  have hclose : (shared.close t).tasks = (s.close t).tasks := by simp only [close, tasks]
  have hawait (task : Task) : (shared.await t task).tasks = (s.await t task).tasks := by
    simp only [await, tasks]
  cases h with
  | ends answer ht hw hp ha =>
    refine .ends answer (ht.trans hclose) (hw.trans warmUps) ?_ ha
    rw [hp, permits]
  | waits task suits request asks ht hw hp ha =>
    exact .waits task suits request asks (ht.trans (hawait task)) (hw.trans warmUps)
      (hp.trans permits) ha

theorem moved_finish (s : Service) (n : Nat) (answer : Answer) :
    Moved (.call n) s (s.finish (.call n) answer) := .ends answer rfl rfl rfl rfl

theorem moved_startReading (s : Service) (id : EdgeId) {purpose : Purpose} (h : purpose.Suits t) :
    Moved t s (s.startReading t id purpose) :=
  .waits (.reading id purpose) h (.read t id) rfl rfl rfl rfl rfl

theorem moved_resolveGrants (s : Service) (n : Nat) (user : UserInfo)
    (granted : List (EdgeId × Role)) (grants : List DeviceGrant) :
    Moved (.call n) s (s.resolveGrants (.call n) user granted grants) := by
  have hr := resolved_resolveGrants s (.call n) user granted grants
  generalize s.resolveGrants (.call n) user granted grants = r at hr ⊢
  cases hr with
  | all edges used there goes =>
    subst goes
    exact .ends _ rfl rfl rfl rfl
  | upTo edges used front g rest split there absent goes =>
    subst goes
    have hs : Purpose.Suits (.login ⟨user, granted ++ grantsOf front, g, rest⟩) (.call n) := trivial
    exact (moved_startReading _ g.id hs).of_shared rfl rfl rfl

theorem moved_resume (s : Service) (found : Option EdgeRef) {purpose : Purpose}
    (h : purpose.Suits t) : Moved t s (s.resume t found purpose) := by
  cases t with
  | call n =>
    cases purpose with
    | answer => exact moved_finish s n _
    | warmUp => exact h.elim
    | login l =>
      obtain ⟨edges, he⟩ := keepFound_eq s l.current.id found
      simp only [resume, he]
      exact (moved_resolveGrants _ n l.user _ l.remaining).of_shared rfl rfl rfl
  | warmUp k =>
    cases purpose with
    | answer => exact h.elim
    | warmUp => exact .ends .done rfl rfl rfl rfl
    | login l => exact h.elim

theorem Fetched.moved {purpose : Purpose} {e : Event} (h : Fetched s t purpose e r)
    (hp : purpose.Suits t) : Moved t s r := by
  cases h with
  | failed ht hf => exact moved_resume s none hp
  | begun ht hr h => exact .waits (.activating _ purpose) hp _ rfl rfl rfl rfl rfl
  | made ht hr h => exact (moved_resume _ _ hp).of_shared rfl rfl rfl
  | installed ht hi hc => exact (moved_resume _ _ hp).of_shared rfl rfl rfl
  | superseded ht hi hc => exact moved_resume s _ hp

theorem Moved.task?_of_ne (h : Moved t s r) {other : Ticket} (ho : other ≠ t) :
    r.1.task? other = s.task? other := by
  cases h with
  | ends answer tasks warmUps permits actions =>
    rw [task?, tasks]
    exact task?_close_of_ne s ho
  | waits task suits request asks tasks warmUps permits actions =>
    rw [task?, tasks]
    exact task?_await_of_ne s ho task

theorem Moved.suited (h : Moved t s r) (hs : Suited s) : Suited r.1 := by
  intro other task ho
  by_cases hot : other = t
  · subst hot
    cases h with
    | ends answer tasks warmUps permits actions =>
      rw [task?, tasks, ← task?, task?_close_self] at ho
      cases ho
    | waits task' suits request asks tasks warmUps permits actions =>
      rw [task?, tasks, ← task?, task?_await_self] at ho
      exact Option.some.inj ho ▸ suits
  · rw [h.task?_of_ne hot] at ho
    exact hs other task ho

end Moved

/-- Refreshes of some edges have started, each with a permit and a ticket of its own. -/
structure Started (s : Service) (ids : List EdgeId) (r : Service × List Action) : Prop where
  permits : r.1.permits + ids.length = s.permits
  warmUps : r.1.warmUps = s.warmUps + ids.length
  actions : r.2 = (List.range' s.warmUps ids.length).map fun k => .queue (.warmUp k)
  queued : ∀ i id, ids[i]? = some id → r.1.task? (.warmUp (s.warmUps + i)) = some (.queued id)
  others : ∀ t, (∀ i < ids.length, t ≠ .warmUp (s.warmUps + i)) → r.1.task? t = s.task? t

theorem started_nil (s : Service) : Started s [] (s, []) := by
  refine ⟨rfl, rfl, rfl, ?_, fun t ht => rfl⟩
  intro i id h
  rw [List.getElem?_nil] at h
  cases h

/-- There are as many as there are permits, from the first edge on. -/
theorem started_warmUpAll (s : Service) (ids : List EdgeId) :
    Started s (ids.take s.permits) (s.warmUpAll ids) := by
  induction ids generalizing s with
  | nil =>
    rw [List.take_nil]
    exact started_nil s
  | cons id rest ih =>
    cases hp : s.permits with
    | zero =>
      have hw : s.warmUp id = (s, []) := by simp only [warmUp, hp]
      have hr := ih s
      rw [hp, List.take_zero] at hr
      simp only [warmUpAll, hw, List.nil_append, List.take_zero]
      exact hr
    | succ permits =>
      have hw : s.warmUp id =
          (({ s with permits, warmUps := s.warmUps + 1 } : Service).await (.warmUp s.warmUps)
            (.queued id), [.queue (.warmUp s.warmUps)]) := by
        simp only [warmUp, hp]
      have htask (t : Ticket) : (s.warmUp id).1.task? t =
          if t = .warmUp s.warmUps then some (.queued id) else s.task? t := by
        rw [hw]
        exact task?_await _ _ _ _
      have hcount : (s.warmUp id).1.warmUps = s.warmUps + 1 := by rw [hw]; rfl
      have hpermits : (s.warmUp id).1.permits = permits := by rw [hw]; rfl
      have hr := ih (s.warmUp id).1
      rw [hpermits] at hr
      rw [List.take_succ_cons]
      refine ⟨?_, ?_, ?_, ?_, ?_⟩
      · have h := hr.permits
        rw [hpermits] at h
        rw [List.length_cons, hp]
        exact congrArg (· + 1) h
      · have h := hr.warmUps
        rw [hcount] at h
        rw [List.length_cons]
        refine h.trans ?_
        omega
      · have h := hr.actions
        rw [hcount] at h
        rw [List.length_cons, List.range'_succ, List.map_cons, ← h, warmUpAll, hw]
        rfl
      · intro i id' h
        cases i with
        | zero =>
          cases h
          refine (hr.others _ fun j hj he => ?_).trans ?_
          · injection he with he
            omega
          · rw [htask, Nat.add_zero, if_pos rfl]
        | succ i =>
          have hq := hr.queued i id' h
          rw [hcount, Nat.add_right_comm] at hq
          exact hq
      · intro t ht
        refine (hr.others t fun i hi he => ?_).trans ?_
        · refine ht (i + 1) (Nat.succ_lt_succ hi) ?_
          rw [he, hcount, Nat.add_right_comm]
          rfl
        · rw [htask, if_neg]
          exact ht 0 (Nat.succ_pos _)

/-- What an event does to the tasks. -/
inductive Move (s : Service) (e : Event) (r : Service × List Action) : Prop
  | rests (tasks : r.1.tasks = s.tasks) (warmUps : r.1.warmUps = s.warmUps)
      (permits : r.1.permits = s.permits)
      (actions : ∀ a ∈ r.2, (∃ owner b, a = .writeBatch owner b) ∨ ∃ n, a = .finish (.call n) .done)
  | moves (t : Ticket) (own : e.ticket? = some t)
      (waited : ∀ k, t = .warmUp k → (s.task? t).isSome = true) (h : Moved t s r)
  | drops (n : Nat) (he : e = .drop n) (hr : r = (s.close (.call n), []))
  | starts (n : Nat) (ids : List UInt32) (he : e = .searched (.call n) (.ok ids))
      (ht : s.task? (.call n) = some .searching)
      (h : Started (s.close (.call n)) ((validIds ids).take s.permits)
        ((s.close (.call n)).warmUpAll (validIds ids)))
      (hr : r = (((s.close (.call n)).warmUpAll (validIds ids)).1,
        ((s.close (.call n)).warmUpAll (validIds ids)).2 ++
          [.finish (.call n) (.edgeIds (validIds ids))]))

theorem move_skip (s : Service) (e : Event) : Move s e (s, []) :=
  .rests rfl rfl rfl fun _ h => absurd h List.not_mem_nil

theorem move_whenFree (s : Service) {e : Event} {n : Nat} {call : Ticket → Service × List Action}
    (he : e.ticket? = some (.call n)) (h : Moved (.call n) s (call (.call n))) :
    Move s e (s.whenFree n call) := by
  unfold whenFree
  split
  · exact move_skip s e
  · exact .moves (.call n) he (fun k hk => Ticket.noConfusion hk) h

theorem moved_lookUp (s : Service) (n : Nat) (id : EdgeId) :
    Moved (.call n) s (s.lookUp (.call n) id) := by
  unfold lookUp
  split
  · exact (moved_finish _ n _).of_shared rfl rfl rfl
  · have hs : Purpose.answer.Suits (.call n) := trivial
    exact (moved_startReading _ id hs).of_shared rfl rfl rfl

theorem moved_startLogin (s : Service) (n : Nat) (session : Option String) :
    Moved (.call n) s (s.startLogin (.call n) session) := by
  unfold startLogin
  split
  · exact moved_finish s n _
  · exact .waits .confirming trivial _ rfl rfl rfl rfl rfl

theorem moved_startSearch (s : Service) (n : Nat) (apikey : String) :
    Moved (.call n) s (s.startSearch (.call n) apikey) := by
  unfold startSearch
  split
  · exact moved_finish s n _
  · exact .waits .searching trivial _ rfl rfl rfl rfl rfl

theorem moved_updateInstance (s : Service) (n : Nat) (ref : EdgeRef) (u : Edge.Update) :
    Moved (.call n) s (s.updateInstance (.call n) ref u) := by
  unfold updateInstance
  split
  · exact moved_finish s n _
  · dsimp only
    split
    · exact (moved_finish _ n _).of_shared rfl rfl rfl
    · exact (moved_finish _ n _).of_shared rfl rfl rfl
    · split
      · exact (moved_finish _ n _).of_shared rfl rfl rfl
      · exact .waits .storing trivial _ rfl rfl rfl rfl rfl

theorem move_searched {s : Service} (hs : Suited s) {t : Ticket} (ht : s.task? t = some .searching)
    (result : Except DirectoryError (List UInt32)) :
    Move s (.searched t result) (s.searchDone t result) := by
  obtain ⟨n, rfl⟩ := call_of_suits (hs t _ ht)
  cases result with
  | error e => exact .moves (.call n) rfl (fun k hk => Ticket.noConfusion hk) (moved_finish s n _)
  | ok ids => exact .starts n ids rfl ht (started_warmUpAll _ _) rfl

/-- Every event moves the task that it is for, or none. -/
theorem move_step {s : Service} (ha : Aligned s) (hs : Suited s) (e : Event) :
    Move s e (s.step e) := by
  -- a call begins if its number is free; an answer is for the task that waits for it
  cases e with
  | lookUp n id =>
    simp only [step]
    apply move_whenFree s rfl
    exact moved_lookUp s n id
  | refresh n id =>
    simp only [step]
    apply move_whenFree s rfl
    exact moved_startReading s id trivial
  | logIn n session =>
    simp only [step]
    apply move_whenFree s rfl
    exact moved_startLogin s n session
  | resolve n apikey =>
    simp only [step]
    apply move_whenFree s rfl
    exact moved_startSearch s n apikey
  | findUser n id =>
    simp only [step]
    apply move_whenFree s rfl
    exact (moved_finish _ n _).of_shared rfl rfl rfl
  | update n ref u =>
    simp only [step]
    apply move_whenFree s rfl
    exact moved_updateInstance s n ref u
  | drop n => exact .drops n rfl rfl
  | confirmed t result =>
    simp only [step]
    split
    · rename_i ht
      obtain ⟨n, rfl⟩ := call_of_suits (hs t _ ht)
      refine .moves (.call n) rfl (fun k hk => Ticket.noConfusion hk) ?_
      cases result with
      | error e => exact moved_finish s n _
      | ok info => exact moved_resolveGrants s n _ _ _
    · exact move_skip s _
  | searched t result =>
    simp only [step]
    split
    · rename_i ht
      exact move_searched hs ht result
    · exact move_skip s _
  | turn t =>
    simp only [step]
    split
    · rename_i id ht
      refine .moves t rfl (fun k hk => ?_) (moved_startReading s id (hs t _ ht))
      rw [ht, Option.isSome_some]
    · exact move_skip s _
  | record t result online =>
    cases ht : s.task? t with
    | none =>
      rw [step_record_of_task?_none ht]
      exact move_skip s _
    | some task =>
      cases task with
      | reading id purpose =>
        refine .moves t rfl (fun k hk => ?_) ((fetched_record ht result online).moved (hs t _ ht))
        rw [ht, Option.isSome_some]
      | confirming | searching | queued id | activating ref purpose | storing =>
        simp only [step, ht]
        exact move_skip s _
  | stored t =>
    cases ht : s.task? t with
    | none =>
      rw [step_stored_of_task?_none ht]
      exact move_skip s _
    | some task =>
      cases task with
      | activating ref purpose =>
        refine .moves t rfl (fun k hk => ?_) ((fetched_stored ha ht).moved (hs t _ ht))
        rw [ht, Option.isSome_some]
      | storing =>
        obtain ⟨n, rfl⟩ := call_of_suits (hs t _ ht)
        simp only [step, ht]
        exact .moves (.call n) rfl (fun k hk => Ticket.noConfusion hk) (moved_finish s n _)
      | confirming | searching | queued id | reading id purpose =>
        simp only [step, ht]
        exact move_skip s _
  | worker we =>
    refine .rests rfl rfl rfl fun a hm => ?_
    obtain ⟨wa, -, rfl⟩ := List.mem_map.mp hm
    cases wa with
    | write owner b => exact Or.inl ⟨owner, b, rfl⟩
    | ended n => exact Or.inr ⟨n, rfl⟩

theorem Move.suited {s : Service} {e : Event} {r : Service × List Action} (h : Move s e r)
    (hs : Suited s) : Suited r.1 := by
  have hclose (n : Nat) : Suited (s.close (.call n)) := fun t task ht => hs t task (task?_of_close ht)
  cases h with
  | rests tasks warmUps permits actions =>
    intro t task ht
    rw [task?, tasks] at ht
    exact hs t task ht
  | moves t own waited h => exact h.suited hs
  | drops n he hr => exact hr ▸ hclose n
  | starts n ids he ht h hr =>
    subst hr
    intro t task htask
    by_cases hq : ∃ i < ((validIds ids).take s.permits).length,
        t = .warmUp ((s.close (.call n)).warmUps + i)
    · obtain ⟨i, hi, rfl⟩ := hq
      have hid := h.queued i _ (List.getElem?_eq_getElem hi)
      rw [hid] at htask
      cases htask
      trivial
    · rw [h.others t fun i hi he => hq ⟨i, hi, he⟩] at htask
      exact hclose n t task htask

/-- What is done for the task of an event, and what else may be done. -/
theorem Move.action {s : Service} {e : Event} {r : Service × List Action} (h : Move s e r)
    {a : Action} (ha : a ∈ r.2) :
    (∃ t, e.ticket? = some t ∧ (a.request? = some t ∨ ∃ answer, a = .finish t answer)) ∨
      (∃ owner b, a = .writeBatch owner b) ∨ (∃ t, a = .queue t) ∨
      ∃ n, a = .finish (.call n) .done := by
  cases h with
  | rests tasks warmUps permits actions =>
    rcases actions a ha with hwrite | hdone
    · exact Or.inr (Or.inl hwrite)
    · exact Or.inr (Or.inr (Or.inr hdone))
  | moves t own waited h =>
    refine Or.inl ⟨t, own, ?_⟩
    cases h with
    | ends answer tasks warmUps permits actions =>
      rw [actions] at ha
      exact Or.inr ⟨answer, List.mem_singleton.mp ha⟩
    | waits task suits request asks tasks warmUps permits actions =>
      rw [actions] at ha
      rw [List.mem_singleton.mp ha]
      exact Or.inl asks
  | drops n hd hr =>
    subst hr
    cases ha
  | starts n ids hd htask h hr =>
    subst hd hr
    rcases List.mem_append.mp ha with ha | ha
    · rw [h.actions] at ha
      obtain ⟨k, -, rfl⟩ := List.mem_map.mp ha
      exact Or.inr (Or.inr (Or.inl ⟨_, rfl⟩))
    · exact Or.inl ⟨_, rfl, Or.inr ⟨_, List.mem_singleton.mp ha⟩⟩

theorem Move.ticket?_of_request {s : Service} {e : Event} {r : Service × List Action}
    (h : Move s e r) {a : Action} (ha : a ∈ r.2) {t : Ticket} (ht : a.request? = some t) :
    e.ticket? = some t := by
  rcases h.action ha with ⟨own, hown, hasks | ⟨answer, rfl⟩⟩ | ⟨owner, b, rfl⟩ | ⟨q, rfl⟩ | ⟨n, rfl⟩
  · rw [hown, ← hasks, ht]
  · cases ht
  · cases ht
  · cases ht
  · cases ht

theorem Move.ticket?_of_login {s : Service} {e : Event} {r : Service × List Action}
    (h : Move s e r) {t : Ticket} {result : Except ServiceError AccountRef}
    (ha : .finish t (.login result) ∈ r.2) : e.ticket? = some t := by
  rcases h.action ha with ⟨own, hown, hasks | ⟨answer, he⟩⟩ | ⟨owner, b, he⟩ | ⟨q, he⟩ | ⟨n, he⟩
  · cases hasks
  · cases he
    exact hown
  · cases he
  · cases he
  · cases he

theorem Move.task?_of_ne {s : Service} {e : Event} {r : Service × List Action} (h : Move s e r)
    {t : Ticket} (ht : ∀ k, t = .warmUp k → k < s.warmUps) (he : e.ticket? ≠ some t) :
    r.1.task? t = s.task? t := by
  cases h with
  | rests tasks warmUps permits actions => rw [task?, tasks, task?]
  | moves own hown waited h =>
    refine h.task?_of_ne fun hto => he ?_
    rw [hto, hown]
  | drops n hd hr =>
    subst hd hr
    exact task?_close_of_ne s fun hto => he (congrArg some hto.symm)
  | starts n ids hd htask h hr =>
    subst hd hr
    refine (h.others _ fun i hi hto => ?_).trans ?_
    · have hlt : s.warmUps + i < s.warmUps := ht _ hto
      omega
    · exact task?_close_of_ne s fun hto => he (congrArg some hto.symm)

theorem task?_call_step {s : Service} (ha : Aligned s) (hs : Suited s) {e : Event} {n : Nat}
    (he : e.ticket? ≠ some (.call n)) : (s.step e).1.task? (.call n) = s.task? (.call n) :=
  (move_step ha hs e).task?_of_ne (fun _ hk => Ticket.noConfusion hk) he

theorem task?_call_run {s : Service} (ha : Aligned s) (hs : Suited s) {n : Nat} {es : List Event}
    (h : ∀ e ∈ es, e.ticket? ≠ some (.call n)) :
    (s.run es).task? (.call n) = s.task? (.call n) := by
  induction es generalizing s with
  | nil => rfl
  | cons e rest ih =>
    have ha' := ha.turn (turn_step ha e)
    have hs' := (move_step ha hs e).suited hs
    refine (ih ha' hs' fun e' he => h e' (List.mem_cons_of_mem e he)).trans ?_
    exact task?_call_step ha hs (h e List.mem_cons_self)

/-- The login that a task belongs to. -/
def Task.login? : Task → Option Login
  | .reading _ (.login l) | .activating _ (.login l) => some l
  | _ => none

/-- Whether an event is the answer from the directory that a call waits for. -/
def heeds (n : Nat) (m : Moment) : Bool :=
  match m.event, m.before.task? (.call n) with
  | .record t _ _, some (.reading ..) => t = .call n
  | .stored t, some (.activating ..) => t = .call n
  | _, _ => false

theorem heeds_of_ne {n : Nat} {s : Service} {e : Event} (h : e.ticket? ≠ some (.call n)) :
    heeds n ⟨s, e⟩ = false := by
  unfold heeds
  split
  · rename_i he _
    have hne : e.ticket? = some _ := congrArg Event.ticket? he
    exact decide_eq_false fun ht => h (ht ▸ hne)
  · rename_i he _
    have hne : e.ticket? = some _ := congrArg Event.ticket? he
    exact decide_eq_false fun ht => h (ht ▸ hne)
  · rfl

/-- A login goes on with the answer that it waits for; what else comes for it is passed over. -/
theorem step_login {s : Service} (ha : Aligned s) {n : Nat} {task : Task} {l : Login} {e : Event}
    (ht : s.task? (.call n) = some task) (hl : task.login? = some l)
    (he : e.ticket? = some (.call n)) (hd : e ≠ .drop n) :
    heeds n ⟨s, e⟩ = true ∧ Fetched s (.call n) (.login l) e (s.step e) ∨
      heeds n ⟨s, e⟩ = false ∧ s.step e = (s, []) := by
  cases e with
  | worker we => cases he
  | drop m =>
    cases he
    exact absurd rfl hd
  | lookUp m id | refresh m id | logIn m session | resolve m apikey | findUser m id
  | update m ref u =>
    cases he
    exact Or.inr ⟨rfl, by simp [step, whenFree, ht]⟩
  | confirmed t result | searched t result | turn t =>
    cases he
    cases task <;> first | cases hl | exact Or.inr ⟨rfl, by simp only [step, ht]⟩
  | record t result online =>
    cases he
    cases task with
    | reading id purpose =>
      cases purpose with
      | login l' =>
        cases hl
        exact Or.inl ⟨by simp [heeds, ht], fetched_record ht result online⟩
      | answer | warmUp => cases hl
    | activating ref purpose => exact Or.inr ⟨by simp [heeds, ht], by simp only [step, ht]⟩
    | confirming | searching | queued id | storing => cases hl
  | stored t =>
    cases he
    cases task with
    | activating ref purpose =>
      cases purpose with
      | login l' =>
        cases hl
        exact Or.inl ⟨by simp [heeds, ht], fetched_stored ha ht⟩
      | answer | warmUp => cases hl
    | reading id purpose => exact Or.inr ⟨by simp [heeds, ht], by simp only [step, ht]⟩
    | confirming | searching | queued id | storing => cases hl

theorem suited_start (settings : Settings) : Suited (start settings) := by
  intro t task ht
  cases ht

theorem suited_run (settings : Settings) (es : List Event) : Suited ((start settings).run es) :=
  run_induct (P := fun _ s => Suited s) es (suited_start settings)
    fun _ _ e _ ha hs => (move_step ha hs e).suited hs

end EdgeFleet.Service
