import EdgeFleet.Proofs.Service.Lookups
import EdgeFleet.Proofs.Service.Succession

namespace EdgeFleet.Service

section There

variable {s : Service} {e : Event}

theorem absent_of_late (ha : Aligned s) {σ : Store} (hσ : s.stored? e = some σ)
    (hl : σ.late = true) : s.cache.edges.peek? σ.id = none := by
  cases turn_step ha e with
  | quiet hs hg hu h | begun hd hs h | superseded he ht hi hc hs h =>
    rw [hs] at hσ
    cases hσ
  | updated he hu hi h | dropped he h =>
    rw [he] at hσ
    cases hσ
  | renewed hd hs h | installed he ht hi hc hs h =>
    rw [hs] at hσ
    cases hσ
    cases hl
  | found he ht hi hc hn hs h =>
    rw [hs] at hσ
    cases hσ
    exact hn

theorem there_of_renewed (ha : Aligned s) (hcap : s.cache.edges.capacity = none) {id : EdgeId}
    {there : EdgeRef} (h : (edgesWith s.cache.edges (s.renewed? e)).peek? id = some there) :
    (edgesWith s.cache.edges (s.stored? e)).peek? id = some there := by
  cases hσ : s.stored? e with
  | none => rwa [renewed?, hσ] at h
  | some σ =>
    cases hl : σ.late with
    | false =>
      have hr : s.renewed? e = some σ := by simp [renewed?, hσ, hl]
      rwa [hr] at h
    | true =>
      have hr : s.renewed? e = none := by simp [renewed?, hσ, hl]
      rw [hr] at h
      have hne : id ≠ σ.id := by
        intro hid
        rw [edgesWith, hid, absent_of_late ha hσ hl] at h
        cases h
      exact (Cache.Recent.peek?_put_of_ne _ hcap hne _).trans h

theorem exists_there (hcap : s.cache.edges.capacity = none) {id : EdgeId} {ref : EdgeRef}
    (h : s.cache.edges.peek? id = some ref) (σ : Option Store) :
    ∃ there, (edgesWith s.cache.edges σ).peek? id = some there := by
  cases σ with
  | none => exact ⟨ref, h⟩
  | some σ =>
    by_cases hid : id = σ.id
    · rw [hid]
      exact ⟨σ.ref, edgesWith_peek?_self _ _⟩
    · exact ⟨ref, (Cache.Recent.peek?_put_of_ne _ hcap hid _).trans h⟩

theorem peek?_step (ha : Aligned s) (e : Event) (id : EdgeId) :
    (s.step e).1.cache.edges.peek? id = (edgesWith s.cache.edges (s.stored? e)).peek? id :=
  (used_step ha e).peek?_eq id

/-- When a look-up ends, the edge is the instance that is at hand, or else the one that was found. -/
theorem peek?_of_lookup {sessions : Ticket → Option SessionInfo} (ha : Aligned s)
    (hk : ∀ t task, s.task? t = some task → Follows (sessions t) task)
    (hcap : s.cache.edges.capacity = none) {n : Nat} {lk : Lookup} (hm : lk ∈ lookups n ⟨s, e⟩) :
    (s.step e).1.cache.edges.peek? lk.id =
      ((edgesWith s.cache.edges (s.renewed? e)).peek? lk.id).or lk.found := by
  rw [peek?_step ha]
  have hserved {grants : List DeviceGrant}
      (hg : lk ∈ served (edgesWith s.cache.edges (s.stored? e)) grants) :
      (edgesWith s.cache.edges (s.stored? e)).peek? lk.id =
        ((edgesWith s.cache.edges (s.renewed? e)).peek? lk.id).or lk.found := by
    obtain ⟨ref, hf, hp⟩ := found_of_served hg
    rw [hf, hp]
    cases hr : (edgesWith s.cache.edges (s.renewed? e)).peek? lk.id with
    | none => rfl
    | some there =>
      rw [there_of_renewed ha hcap hr] at hp
      exact hp.symm
  have he : e.ticket? = some (.call n) := by
    by_contra he
    rw [lookups_of_ne he] at hm
    cases hm
  -- what was at hand is noted as it is; only the edge that was waited for may be new
  cases visit_step ha hk he with
  | rests noted closed hr | apart noted closed h =>
    rw [noted] at hm
    cases hm
  | opens info he ht hr =>
    subst he
    simp only [lookups, Event.ticket?, if_true, ht] at hm
    exact hserved hm
  | goes l closed h =>
    rcases h.found ha with ⟨noted, -⟩ | ⟨found, shared, -, hf⟩
    · rw [noted] at hm
      cases hm
    · rw [hf.noted] at hm
      rcases List.mem_cons.mp hm with rfl | hm
      · exact hf.there
      · exact hserved hm

end There

theorem sessions_foldl_enter (actions : List Action) (l : Ledger) :
    (actions.foldl Ledger.enter l).sessions = l.sessions := by
  induction actions generalizing l with
  | nil => rfl
  | cons a rest ih =>
    rw [List.foldl_cons, ih]
    unfold Ledger.enter
    split <;> rfl

theorem sessions_ledger_concat (ms : List Moment) (s : Service) (e : Event) :
    (ledger (ms ++ [⟨s, e⟩])).sessions = sessionsAfter (ledger ms).sessions s e := by
  rw [ledger_concat]
  exact sessions_foldl_enter _ _

/-- The logins under way have noted what they have looked up, and what they have found is at hand. -/
structure Noted (ms : List Moment) (s : Service) : Prop where
  follows : ∀ t task, s.task? t = some task → Follows ((ledger ms).sessions t) task
  ids : ∀ n task l, s.task? (.call n) = some task → task.login? = some l →
    (journal n ms).map (·.id) = l.granted.map (·.1)
  there : ∀ n, ∀ lk ∈ journal n ms, lk.found ≠ none →
    ∃ ref, s.cache.edges.peek? lk.id = some ref

section Noted

variable {ms : List Moment} {s : Service} {e : Event}

theorem Noted.of {n : Nat} (h : Noted ms s) {task : Task} {l : Login}
    (ht : s.task? (.call n) = some task) (hl : task.login? = some l) :
    ∃ info, (ledger ms).sessions (.call n) = some info ∧ l.Of info := by
  have hf := h.follows _ _ ht
  cases task with
  | reading id purpose | activating ref purpose =>
    cases purpose with
    | login l' =>
      cases hl
      exact hf
    | answer | warmUp => cases hl
  | confirming | searching | queued id | storing => cases hl

theorem Fetched.login {n : Nat} {l : Login} {r : Service × List Action}
    (h : Fetched s (.call n) (.login l) e r) :
    ∃ task, s.task? (.call n) = some task ∧ task.login? = some l := by
  cases h with
  | failed ht hf | begun ht hr h | made ht hr h | installed ht hi hc | superseded ht hi hc =>
    exact ⟨_, ht, rfl⟩

theorem Fetched.sessions {t : Ticket} {purpose : Purpose} {r : Service × List Action}
    (h : Fetched s t purpose e r) (sessions : Ticket → Option SessionInfo) :
    sessionsAfter sessions s e = sessions := by
  cases h <;> rfl

/-- A login has noted the edges that it has granted, and in the end those of its session. -/
structure Visited (n : Nat) (js : List Lookup) (session : Option SessionInfo)
    (r : Service × List Action) : Prop where
  waits : ∀ task l, r.1.task? (.call n) = some task → task.login? = some l →
    js.map (·.id) = l.granted.map (·.1)
  ends : ∀ ref, .finish (.call n) (.login (.ok ref)) ∈ r.2 →
    ∃ info, session = some info ∧ js.map (·.id) = info.devices.map (·.id)

theorem visited_opens (s : Service) (n : Nat) (info : SessionInfo) :
    Visited n (served s.cache.edges info.devices) (some info)
      (s.resolveGrants (.call n) info.user [] info.devices) := by
  have ht := traversed_resolveGrants s n info.user [] info.devices fun _ => rfl
  exact ⟨ht.waits, fun ref hm => ⟨info, rfl, ht.ends ref hm⟩⟩

theorem Noted.visited_goes (h : Noted ms s) (ha : Aligned s) {n : Nat} {l : Login}
    (hf : Fetched s (.call n) (.login l) e (s.step e)) :
    Visited n (journal n ms ++ lookups n ⟨s, e⟩) ((ledger ms).sessions (.call n)) (s.step e) := by
  obtain ⟨task, ht, hl⟩ := hf.login
  have hids := h.ids n task l ht hl
  rcases hf.found ha with
    ⟨noted, hactivating, id, field, value, hwrite⟩ | ⟨found, shared, hr, hfound⟩
  · rw [noted, List.append_nil]
    constructor
    · intro task' l' ht' hl'
      rw [hactivating] at ht'
      cases ht'
      cases hl'
      exact hids
    · intro ref hm
      rw [hwrite] at hm
      cases List.mem_singleton.mp hm
  · have hused := (keeps_resolveGrants (shared.keepFound l.current.id found) (.call n) l.user
      (l.granted ++ [(l.current.id, Role.ofText l.current.role)]) l.remaining).edges
    have hresume : s.step e = (shared.keepFound l.current.id found).resolveGrants (.call n) l.user
      (l.granted ++ [(l.current.id, Role.ofText l.current.role)]) l.remaining := hr
    rw [← hresume] at hused
    have htr := traversed_resolveGrants (shared.keepFound l.current.id found) n l.user
      (l.granted ++ [(l.current.id, Role.ofText l.current.role)]) l.remaining
      fun id => (hused.peek?_eq id).symm.trans (peek?_step ha e id)
    rw [← hresume] at htr
    rw [hfound.noted]
    constructor
    · intro task' l' ht' hl'
      have hw := htr.waits task' l' ht' hl'
      rw [List.map_append, List.append_assoc] at hw
      rw [List.map_append, List.map_cons, hids]
      exact hw
    · intro ref hm
      obtain ⟨info, hsession, -, done, hd, hg⟩ := h.of ht hl
      refine ⟨info, hsession, ?_⟩
      rw [List.map_append, List.map_cons, hids, htr.ends ref hm, hd, hg]
      simp [grantsOf]

theorem Noted.visited (h : Noted ms s) (ha : Aligned s) {n : Nat} (hv : Visit s n e (s.step e)) :
    Visited n (journal n (ms ++ [⟨s, e⟩])) ((ledger (ms ++ [⟨s, e⟩])).sessions (.call n))
      (s.step e) := by
  rw [journal_concat, sessions_ledger_concat]
  cases hv with
  | rests noted closed hr =>
    rw [noted, closed, hr, if_neg Bool.false_ne_true, List.append_nil]
    exact ⟨h.ids n, fun ref hm => absurd hm List.not_mem_nil⟩
  | apart noted closed hapart =>
    refine ⟨fun task l ht hl => ?_, fun ref hm => absurd hm (hapart.silent ref)⟩
    rw [hapart.after task ht] at hl
    cases hl
  | opens info he ht hr =>
    subst he
    have hlookups : lookups n ⟨s, .confirmed (.call n) (.ok info)⟩ =
        served s.cache.edges info.devices := by
      simp only [lookups, Event.ticket?, if_true, ht]
      rfl
    have hopens : opens n ⟨s, .confirmed (.call n) (.ok info)⟩ = true := by simp [opens, ht]
    have hsession : sessionsAfter (ledger ms).sessions s (.confirmed (.call n) (.ok info))
        (.call n) = some info := by simp only [sessionsAfter, ht, if_true]
    rw [hlookups, hopens, if_pos rfl, List.nil_append, hr, hsession]
    exact visited_opens s n info
  | goes l closed hf =>
    rw [closed, if_neg Bool.false_ne_true, hf.sessions]
    exact h.visited_goes ha hf

theorem Noted.step (h : Noted ms s) (ha : Aligned s) (hs : Suited s)
    (hcap : s.cache.edges.capacity = none) (e : Event) :
    Noted (ms ++ [⟨s, e⟩]) (s.step e).1 := by
  have hjournal {n : Nat} (he : e.ticket? ≠ some (.call n)) :
      journal n (ms ++ [⟨s, e⟩]) = journal n ms := by
    rw [journal_concat, opens_of_ne he, lookups_of_ne he, if_neg Bool.false_ne_true, List.append_nil]
  refine ⟨fun t task ht => ?_, fun n task l ht hl => ?_, fun n lk hm hf => ?_⟩
  · rw [sessions_ledger_concat]
    have htasks : s.task? t = some task ∨
        Follows (sessionsAfter (ledger ms).sessions s e t) task := by
      cases course_step h.follows e with
      | goesOn users accounts tasks actions => exact tasks t task ht
      | commits session stored tasks actions => exact tasks t task ht
    rcases htasks with hold | hnew
    · exact follows_sessionsAfter hold (h.follows t task hold) e
    · exact hnew
  · by_cases he : e.ticket? = some (.call n)
    · exact (h.visited ha (visit_step ha h.follows he)).waits task l ht hl
    · rw [task?_call_step ha hs he] at ht
      rw [hjournal he]
      exact h.ids n task l ht hl
  · rw [journal_concat] at hm
    rcases List.mem_append.mp hm with hm | hm
    · have hold : lk ∈ journal n ms := by
        split at hm
        · cases hm
        · exact hm
      obtain ⟨ref, hp⟩ := h.there n lk hold hf
      rw [peek?_step ha]
      exact exists_there hcap hp _
    · rw [peek?_of_lookup ha h.follows hcap hm]
      obtain ⟨ref, hr⟩ := Option.ne_none_iff_exists'.mp hf
      rw [hr]
      cases (edgesWith s.cache.edges (s.renewed? e)).peek? lk.id with
      | none => exact ⟨ref, rfl⟩
      | some there => exact ⟨there, rfl⟩

end Noted

theorem noted_run {settings : Settings} (hcap : settings.edgeCapacity = none) (es : List Event) :
    Noted ((start settings).moments es) ((start settings).run es) := by
  refine (run_induct (P := fun ms s => Suited s ∧ s.cache.edges.capacity = none ∧ Noted ms s) es
    ⟨suited_start settings, hcap, ?_, ?_, ?_⟩ ?_).2.2
  · intro t task ht
    cases ht
  · intro n task l ht
    cases ht
  · intro n lk hm
    cases hm
  · rintro ms s e - ha ⟨hs, hc, hn⟩
    refine ⟨(move_step ha hs e).suited hs, ?_, hn.step ha hs hc e⟩
    rw [(used_step ha e).capacity_eq]
    cases s.stored? e <;> exact hc

theorem exists_peek?_run {settings : Settings} (hcap : settings.edgeCapacity = none)
    (es more : List Event) {id : EdgeId} {ref : EdgeRef}
    (hp : ((start settings).run es).cache.edges.peek? id = some ref) :
    ∃ there, (((start settings).run es).run more).cache.edges.peek? id = some there := by
  rw [← run_append]
  -- by induction on what comes later: without a bound a step may replace an edge, but drops none
  induction more using List.reverseRecOn with
  | nil =>
    rw [List.append_nil]
    exact ⟨ref, hp⟩
  | append_singleton more e ih =>
    obtain ⟨there, hthere⟩ := ih
    rw [← List.append_assoc, run_concat, peek?_step (aligned_run settings (es ++ more))]
    exact exists_there (unevicted_run hcap (es ++ more)).unbounded hthere _

/-- What becomes of the edges that logins look up, in a run until now and with the next event. -/
structure Retention (ms : List Moment) (s : Service) : Prop where
  /-- A login that ends well has looked up every edge of its session, in order; each one that was found
  is at hand then, and always will be. -/
  granted : ∀ e n ref, .finish (.call n) (.login (.ok ref)) ∈ (s.step e).2 →
    ∃ info, (ledger (ms ++ [⟨s, e⟩])).sessions (.call n) = some info ∧
      (journal n (ms ++ [⟨s, e⟩])).map (·.id) = info.devices.map (·.id) ∧
      ∀ lk ∈ journal n (ms ++ [⟨s, e⟩]), lk.found ≠ none → ∀ more, ∃ there,
        ((s.step e).1.run more).cache.edges.peek? lk.id = some there
  /-- When a look-up ends, the edge is the instance that is at hand once the current one has been put, and
  only if there is none the one that was found. -/
  settled : ∀ e n, ∀ lk ∈ lookups n ⟨s, e⟩, (s.step e).1.cache.edges.peek? lk.id =
    ((edgesWith s.cache.edges (s.renewed? e)).peek? lk.id).or lk.found
  /-- No instance that is at hand then is replaced. -/
  kept : ∀ e id there, (edgesWith s.cache.edges (s.renewed? e)).peek? id = some there →
    (s.step e).1.cache.edges.peek? id = some there

/-- Without a bound on the edges, whatever happens, an edge that a login has found is at hand when it
ends well and from then on. -/
theorem retention_run {settings : Settings} (hcap : settings.edgeCapacity = none)
    (es : List Event) : Retention ((start settings).moments es) ((start settings).run es) := by
  have ha := aligned_run settings es
  have hs := suited_run settings es
  have hunbounded := (unevicted_run hcap es).unbounded
  have hnoted := noted_run hcap es
  refine ⟨fun e n ref hm => ?_, fun e n lk hm => peek?_of_lookup ha hnoted.follows hunbounded hm,
    fun e id there hr => (peek?_step ha e id).trans (there_of_renewed ha hunbounded hr)⟩
  have he := (move_step ha hs e).ticket?_of_login hm
  have hvisited := hnoted.visited ha (visit_step ha hnoted.follows he)
  obtain ⟨info, hsession, hids⟩ := hvisited.ends ref hm
  refine ⟨info, hsession, hids, fun lk hlk hf more => ?_⟩
  obtain ⟨there, hp⟩ := (hnoted.step ha hs hunbounded e).there n lk hlk hf
  rw [← run_concat] at hp ⊢
  exact exists_peek?_run hcap (es ++ [e]) more hp

/-- A login and a later refresh of its edge both wait for their activations. -/
def activations : List Event :=
  [.logIn 0 (some "session"),
    .confirmed (.call 0) (.ok ⟨⟨userOne, "A"⟩, [⟨edgeOne, "owner"⟩]⟩),
    .refresh 1 edgeOne, .record (.call 0) (.ok (recordOf edgeOne .inactive)) true,
    .record (.call 1) (.ok (recordOf edgeOne .inactive)) true]

/-- When the login ends, its instance is not current and still at hand. -/
theorem retention_activations :
    ({} : Settings).edgeCapacity = none ∧
      Retention ((start {}).moments activations) ((start {}).run activations) ∧
      lookups 0 ⟨(start {}).run activations, .stored (.call 0)⟩ = [⟨edgeOne, some 0⟩] ∧
      ((start {}).run activations).renewed? (.stored (.call 0)) = none ∧
      (((start {}).run activations).step (.stored (.call 0))).2 =
        [.finish (.call 0) (.login (.ok 0))] :=
  ⟨rfl, retention_run rfl activations, rfl, rfl, rfl⟩

end EdgeFleet.Service
