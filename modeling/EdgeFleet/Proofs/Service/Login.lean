import EdgeFleet.Proofs.Service.Run

namespace EdgeFleet.Service

open Cache.Recent (Used)

/-- What some devices of a session grant. -/
def grantsOf (devices : List DeviceGrant) : List (EdgeId × Role) :=
  devices.map fun g => (g.id, Role.ofText g.role)

theorem grantsOf_concat (done : List DeviceGrant) (g : DeviceGrant) :
    grantsOf (done ++ [g]) = grantsOf done ++ [(g.id, Role.ofText g.role)] := by
  simp [grantsOf]

/-- The login belongs to the session: it has granted the first devices, and the others remain. -/
def Login.Of (l : Login) (info : SessionInfo) : Prop :=
  l.user = info.user ∧
    ∃ done, info.devices = done ++ l.current :: l.remaining ∧ l.granted = grantsOf done

/-- A task that resolves the grants of a login belongs to the session. -/
def Follows (session : Option SessionInfo) : Task → Prop
  | .reading _ (.login l) => ∃ info, session = some info ∧ l.Of info
  | .activating _ (.login l) => ∃ info, session = some info ∧ l.Of info
  | _ => True

/-- A user is stored with all that a session grants: in the account at hand, or in a new one. -/
inductive Stored (c c' : Cache EdgeRef) (info : SessionInfo) (ref : AccountRef) : Prop
  | again (there : c.users.peek? info.user.id = some ref) (users : Used c.users c'.users)
      (accounts : c'.accounts =
        c.accounts.modify ref (·.merge info.user.name (grantsOf info.devices)))
  | first (absent : c.users.peek? info.user.id = none) (fresh : ref = c.accounts.length)
      (users : c'.users = c.users.put info.user.id ref)
      (accounts : c'.accounts =
        c.accounts ++ [.ofGrants info.user.id info.user.name (grantsOf info.devices)])

theorem stored_upsertUser (c : Cache EdgeRef) (info : SessionInfo) :
    Stored c (c.upsertUser info.user.id info.user.name (grantsOf info.devices)).1 info
      (c.upsertUser info.user.id info.user.name (grantsOf info.devices)).2 := by
  cases h : c.users.peek? info.user.id with
  | none =>
    have ht : c.users.touch info.user.id = c.users := by simp [Cache.Recent.touch, h]
    simp only [Cache.upsertUser, Cache.getUser, Cache.Recent.get, h, ht]
    exact .first h rfl rfl rfl
  | some ref =>
    simp only [Cache.upsertUser, Cache.getUser, Cache.Recent.get, h]
    exact .again h (Cache.Recent.used_touch _ _) rfl

/-- The users are left alone, or one is stored whose login ends with that. Either way the tasks of
logins follow their sessions. -/
inductive Course (sessions : Ticket → Option SessionInfo) (s : Service)
    (r : Service × List Action) : Prop
  | goesOn (users : Used s.cache.users r.1.cache.users)
      (accounts : r.1.cache.accounts = s.cache.accounts)
      (tasks : ∀ t task, r.1.task? t = some task → s.task? t = some task ∨ Follows (sessions t) task)
      (actions : ∀ t ref, .finish t (.login (.ok ref)) ∉ r.2)
  | commits {t : Ticket} {info : SessionInfo} {ref : AccountRef} (session : sessions t = some info)
      (stored : Stored s.cache r.1.cache info ref)
      (tasks : ∀ t task, r.1.task? t = some task → s.task? t = some task ∨ Follows (sessions t) task)
      (actions : r.2 = [.finish t (.login (.ok ref))])

section Course

variable {sessions : Ticket → Option SessionInfo} {s : Service} {r : Service × List Action}

/-- What a service with the same users and tasks does, the service itself does to them. -/
theorem Course.of_shared {shared : Service} (h : Course sessions shared r)
    (users : shared.cache.users = s.cache.users) (accounts : shared.cache.accounts = s.cache.accounts)
    (tasks : shared.tasks = s.tasks) : Course sessions s r := by
  have htask (t : Ticket) : shared.task? t = s.task? t := by simp only [task?, tasks]
  cases h with
  | goesOn hu ha ht actions =>
    rw [users] at hu
    rw [accounts] at ha
    simp only [htask] at ht
    exact .goesOn hu ha ht actions
  | commits session stored ht actions =>
    simp only [htask] at ht
    refine .commits session ?_ ht actions
    cases stored with
    | again there hu ha =>
      rw [users] at there hu
      rw [accounts] at ha
      exact .again there hu ha
    | first absent fresh hu ha =>
      rw [users] at absent hu
      rw [accounts] at fresh ha
      exact .first absent fresh hu ha

theorem Course.of_edges (edges : Cache.Recent EdgeId EdgeRef)
    (h : Course sessions { s with cache := { s.cache with edges } } r) : Course sessions s r :=
  h.of_shared rfl rfl rfl

theorem course_skip (sessions : Ticket → Option SessionInfo) (s : Service) :
    Course sessions s (s, []) :=
  .goesOn .refl rfl (fun _ _ h => Or.inl h) fun _ _ h => absurd h List.not_mem_nil

theorem course_finish (s : Service) (t : Ticket) {answer : Answer}
    (h : ∀ ref, answer ≠ .login (.ok ref)) : Course sessions s (s.finish t answer) := by
  refine .goesOn .refl rfl (fun _ _ ht => Or.inl (task?_of_close ht)) fun t' ref hm => ?_
  have he := List.mem_singleton.mp hm
  injection he with _ ha
  exact h ref ha.symm

theorem course_await (s : Service) {t : Ticket} {task : Task} {actions : List Action}
    (h : Follows (sessions t) task)
    (hno : ∀ t ref, Action.finish t (.login (.ok ref)) ∉ actions) :
    Course sessions s (s.await t task, actions) := by
  refine .goesOn .refl rfl (fun other task' ht => ?_) hno
  have ht' : (if other = t then some task else s.task? other) = some task' :=
    (task?_await s t other task).symm.trans ht
  split at ht'
  · rename_i ho
    cases ht'
    exact Or.inr (ho ▸ h)
  · exact Or.inl ht'

theorem course_startReading (s : Service) {t : Ticket} {id : EdgeId} {purpose : Purpose}
    (h : Follows (sessions t) (.reading id purpose)) :
    Course sessions s (s.startReading t id purpose) :=
  course_await s h (by simp)

/-- A login whose grants are all resolved stores what its session lists. -/
theorem course_commit (s : Service) {t : Ticket} {info : SessionInfo}
    (h : sessions t = some info) :
    Course sessions s (s.commit t info.user (grantsOf info.devices)) :=
  .commits h (stored_upsertUser s.cache info) (fun _ _ ht => Or.inl (task?_of_close ht)) rfl

theorem keepFound_eq (s : Service) (id : EdgeId) (found : Option EdgeRef) :
    ∃ edges, s.keepFound id found = { s with cache := { s.cache with edges } } := by
  cases found with
  | none => exact ⟨s.cache.edges, rfl⟩
  | some ref =>
    cases h : s.cache.edges.peek? id with
    | none =>
      refine ⟨s.cache.edges.put id ref, ?_⟩
      simp only [keepFound, Cache.putEdgeIfAbsent_of_none _ h, Cache.putEdge]
    | some there =>
      refine ⟨s.cache.edges.touch id, ?_⟩
      simp only [keepFound, Cache.putEdgeIfAbsent, Cache.getEdge, Cache.Recent.get, h]

/-- A login that has granted the first devices of its session waits for a record or is committed. -/
theorem course_resolveGrants (s : Service) {t : Ticket} {info : SessionInfo}
    (h : sessions t = some info) {done grants : List DeviceGrant}
    (hd : info.devices = done ++ grants) :
    Course sessions s (s.resolveGrants t info.user (grantsOf done) grants) := by
  -- `done` takes over the grants from the front of the list
  induction grants generalizing s done with
  | nil =>
    rw [List.append_nil] at hd
    rw [← hd]
    exact course_commit s h
  | cons g rest ih =>
    cases hp : s.cache.edges.peek? g.id with
    | none =>
      simp only [resolveGrants, Cache.getEdge, Cache.Recent.get, hp]
      apply Course.of_edges (s.cache.edges.touch g.id)
      exact course_startReading _ ⟨info, h, rfl, done, hd, rfl⟩
    | some ref =>
      simp only [resolveGrants, Cache.getEdge, Cache.Recent.get, hp, ← grantsOf_concat]
      apply Course.of_edges (s.cache.edges.touch g.id)
      obtain ⟨edges, he⟩ := keepFound_eq
        { s with cache := { s.cache with edges := s.cache.edges.touch g.id } } g.id (some ref)
      rw [he]
      apply Course.of_edges edges
      exact ih _ (by rw [hd, List.append_assoc]; rfl)

theorem course_resume (s : Service) {t : Ticket} (found : Option EdgeRef) {purpose : Purpose}
    (h : ∀ l, purpose = .login l → ∃ info, sessions t = some info ∧ l.Of info) :
    Course sessions s (s.resume t found purpose) := by
  cases purpose with
  | answer => exact course_finish s t (by simp)
  | warmUp =>
    have hf : Course sessions { s with permits := s.permits + 1 }
        (({ s with permits := s.permits + 1 } : Service).finish t .done) := course_finish _ t (by simp)
    exact hf.of_shared rfl rfl rfl
  | login l =>
    obtain ⟨info, hi, hu, done, hd, hg⟩ := h l rfl
    obtain ⟨edges, he⟩ := keepFound_eq s l.current.id found
    simp only [resume, he, hu, hg, ← grantsOf_concat]
    apply Course.of_edges edges
    exact course_resolveGrants _ hi (by rw [hd, List.append_assoc]; rfl)

theorem course_install (s : Service) {t : Ticket} (ref : EdgeRef) {purpose : Purpose}
    (h : ∀ l, purpose = .login l → ∃ info, sessions t = some info ∧ l.Of info) :
    Course sessions s (s.install t ref purpose) := by
  cases hi : s.instance? ref with
  | none =>
    simp only [install, hi]
    exact course_resume s none h
  | some i =>
    simp only [install, hi, Generations.installIfCurrent]
    split
    · exact Course.of_edges (s.cache.edges.put i.edge.id ref) (course_resume _ (some ref) h)
    · exact course_resume s (some ref) h

theorem course_buildInstance (s : Service) {t : Ticket} (record : EdgeRecord) (online : Bool)
    {purpose : Purpose}
    (h : ∀ l, purpose = .login l → ∃ info, sessions t = some info ∧ l.Of info) :
    Course sessions s (s.buildInstance t record online purpose) := by
  simp only [buildInstance]
  split
  · refine Course.of_shared (course_await _ ?_ (by simp)) rfl rfl rfl
    cases purpose with
    | login l => exact h l rfl
    | answer => trivial
    | warmUp => trivial
  · exact (course_install _ s.instances.length h).of_shared rfl rfl rfl

theorem course_recordRead (s : Service) {t : Ticket} (id : EdgeId) {purpose : Purpose}
    (result : Except DirectoryError Directory.Record) (online : Bool)
    (h : ∀ l, purpose = .login l → ∃ info, sessions t = some info ∧ l.Of info) :
    Course sessions s (s.recordRead t id purpose result online) := by
  cases result with
  | error e => exact course_resume s none h
  | ok reply =>
    simp only [recordRead]
    split
    · exact course_resume s none h
    · exact course_buildInstance s _ online h

theorem course_whenFree (s : Service) (n : Nat) (call : Ticket → Service × List Action)
    (h : Course sessions s (call (.call n))) : Course sessions s (s.whenFree n call) := by
  unfold whenFree
  split
  · exact course_skip sessions s
  · exact h

theorem course_lookUp (s : Service) (t : Ticket) (id : EdgeId) :
    Course sessions s (s.lookUp t id) := by
  cases h : s.cache.edges.peek? id with
  | none =>
    simp only [lookUp, Cache.getEdge, Cache.Recent.get, h]
    exact Course.of_edges (s.cache.edges.touch id) (course_startReading _ trivial)
  | some ref =>
    simp only [lookUp, Cache.getEdge, Cache.Recent.get, h]
    exact Course.of_edges (s.cache.edges.touch id) (course_finish _ t (by simp))

theorem course_startLogin (s : Service) (t : Ticket) (session : Option String) :
    Course sessions s (s.startLogin t session) := by
  unfold startLogin
  split
  · exact course_finish s t (by simp)
  · exact course_await s trivial (by simp)

theorem course_startSearch (s : Service) (t : Ticket) (apikey : String) :
    Course sessions s (s.startSearch t apikey) := by
  unfold startSearch
  split
  · exact course_finish s t (by simp)
  · exact course_await s trivial (by simp)

theorem course_findUser (s : Service) (t : Ticket) (id : UserId) :
    Course sessions s (s.findUser t id) := by
  refine .goesOn (Cache.Recent.used_touch _ _) rfl (fun _ _ ht => Or.inl (task?_of_close ht)) ?_
  intro t' ref hm
  have he := List.mem_singleton.mp hm
  cases he

theorem course_updateInstance (s : Service) (t : Ticket) (ref : EdgeRef) (u : Edge.Update) :
    Course sessions s (s.updateInstance t ref u) := by
  have hdone (shared : Service) : Course sessions shared (shared.finish t .done) :=
    course_finish shared t (by simp)
  unfold updateInstance
  split
  · exact hdone s
  · dsimp only
    split
    · exact (hdone _).of_shared rfl rfl rfl
    · exact (hdone _).of_shared rfl rfl rfl
    · split
      · exact (hdone _).of_shared rfl rfl rfl
      · refine Course.of_shared (course_await _ ?_ (by simp)) rfl rfl rfl
        trivial

theorem warmUpAll_spec (s : Service) (ids : List EdgeId) :
    (s.warmUpAll ids).1.cache = s.cache ∧
      (∀ t task, (s.warmUpAll ids).1.task? t = some task →
        s.task? t = some task ∨ ∃ id, task = .queued id) ∧
      ∀ a ∈ (s.warmUpAll ids).2, ∃ t, a = .queue t := by
  induction ids generalizing s with
  | nil => exact ⟨rfl, fun _ _ h => Or.inl h, fun _ h => absurd h List.not_mem_nil⟩
  | cons id rest ih =>
    cases hp : s.permits with
    | zero =>
      have hw : s.warmUp id = (s, []) := by simp only [warmUp, hp]
      simp only [warmUpAll, hw, List.nil_append]
      exact ih s
    | succ permits =>
      obtain ⟨hc, ht, ha⟩ := ih (s.warmUp id).1
      have hw : s.warmUp id = (({ s with permits, warmUps := s.warmUps + 1 } : Service).await
          (.warmUp s.warmUps) (.queued id), [.queue (.warmUp s.warmUps)]) := by
        simp only [warmUp, hp]
      refine ⟨hc.trans (by rw [hw]; rfl), fun t task h => ?_, fun a h => ?_⟩
      · rcases ht t task h with h | h
        · rw [hw] at h
          have h' := (task?_await _ _ _ _).symm.trans h
          split at h'
          · exact Or.inr ⟨id, (Option.some.inj h').symm⟩
          · exact Or.inl h'
        · exact Or.inr h
      · have h' : a ∈ (s.warmUp id).2 ++ ((s.warmUp id).1.warmUpAll rest).2 := h
        rcases List.mem_append.mp h' with h' | h'
        · rw [hw] at h'
          exact ⟨_, List.mem_singleton.mp h'⟩
        · exact ha a h'

theorem course_searchDone (s : Service) (t : Ticket)
    (result : Except DirectoryError (List UInt32)) :
    Course sessions s (s.searchDone t result) := by
  cases result with
  | error e => exact course_finish s t (by simp)
  | ok ids =>
    obtain ⟨hc, ht, ha⟩ := warmUpAll_spec (s.close t) (validIds ids)
    refine .goesOn ?_ ?_ (fun other task h => ?_) fun other ref hm => ?_
    · simp only [searchDone, hc]
      exact .refl
    · simp only [searchDone, hc]
      rfl
    · rcases ht other task h with h | ⟨id, rfl⟩
      · exact Or.inl (task?_of_close h)
      · exact Or.inr trivial
    · rcases List.mem_append.mp hm with hm | hm
      · obtain ⟨t', he⟩ := ha _ hm
        cases he
      · have he := List.mem_singleton.mp hm
        cases he

theorem course_stepWorker (s : Service) (e : WriteBack.Worker.Event) :
    Course sessions s (s.stepWorker e) := by
  refine .goesOn .refl rfl (fun _ _ h => Or.inl h) fun t ref hm => ?_
  obtain ⟨a, -, he⟩ := List.mem_map.mp hm
  cases a with
  | write owner batch => cases he
  | ended call => cases he

end Course

/-- The sessions of the logins, where an event may confirm another one. -/
def sessionsAfter (sessions : Ticket → Option SessionInfo) (s : Service) :
    Event → Ticket → Option SessionInfo
  | .confirmed t (.ok info), other =>
    match s.task? t with
    | some .confirming => if other = t then some info else sessions other
    | _ => sessions other
  | _, other => sessions other

/-- Every event takes its course. -/
theorem course_step {sessions : Ticket → Option SessionInfo} {s : Service}
    (hk : ∀ t task, s.task? t = some task → Follows (sessions t) task) (e : Event) :
    Course (sessionsAfter sessions s e) s (s.step e) := by
  cases e with
  | lookUp n id =>
    simp only [step]
    refine course_whenFree s n _ ?_
    exact course_lookUp s _ id
  | refresh n id =>
    simp only [step]
    refine course_whenFree s n _ ?_
    exact course_startReading s trivial
  | logIn n session =>
    simp only [step]
    refine course_whenFree s n _ ?_
    exact course_startLogin s _ session
  | resolve n apikey =>
    simp only [step]
    refine course_whenFree s n _ ?_
    exact course_startSearch s _ apikey
  | findUser n id =>
    simp only [step]
    refine course_whenFree s n _ ?_
    exact course_findUser s _ id
  | update n ref u =>
    simp only [step]
    refine course_whenFree s n _ ?_
    exact course_updateInstance s _ ref u
  | drop n =>
    exact .goesOn .refl rfl (fun _ _ h => Or.inl (task?_of_close h))
      fun _ _ h => absurd h List.not_mem_nil
  | confirmed t result =>
    simp only [step]
    split
    · rename_i ht
      cases result with
      | error e => exact course_finish s t (by simp)
      | ok info =>
        have hi : sessionsAfter sessions s (.confirmed t (.ok info)) t = some info := by
          simp only [sessionsAfter, ht, if_true]
        exact course_resolveGrants s hi (List.nil_append _).symm
    · exact course_skip _ s
  | searched t result =>
    simp only [step]
    split
    · exact course_searchDone s t result
    · exact course_skip _ s
  | turn t =>
    simp only [step]
    split
    · exact course_startReading s trivial
    · exact course_skip _ s
  | record t result online =>
    simp only [step]
    split
    · rename_i id purpose ht
      refine course_recordRead s id result online ?_
      rintro l rfl
      exact hk t _ ht
    · exact course_skip _ s
  | stored t =>
    simp only [step]
    split
    · rename_i ref purpose ht
      refine course_install s ref ?_
      rintro l rfl
      exact hk t _ ht
    · exact course_finish s t (by simp)
    · exact course_skip _ s
  | worker e => exact course_stepWorker s e

end EdgeFleet.Service
