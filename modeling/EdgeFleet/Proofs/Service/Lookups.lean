import EdgeFleet.Proofs.Service.Advance
import EdgeFleet.Proofs.Service.Ledger

namespace EdgeFleet.Service

/-- An edge that a login has looked up, and what was found. -/
structure Lookup where
  id : EdgeId
  found : Option EdgeRef
  deriving DecidableEq

/-- The first of some grants, as long as their edges are at hand. -/
def served (edges : Cache.Recent EdgeId EdgeRef) : List DeviceGrant → List Lookup
  | [] => []
  | g :: rest =>
    match edges.peek? g.id with
    | some ref => ⟨g.id, some ref⟩ :: served edges rest
    | none => []

/-- What a call that looks an edge up is answered with. -/
def answer? : List Action → Option (Option EdgeRef)
  | [.finish _ (.edge found)] => some found
  | _ => none

/-- The edges that a login has looked up once an event has happened: the one that it was waiting for, if
a call that only looks that edge up would be answered now, and those after it that are at hand. -/
def lookups (n : Nat) (m : Moment) : List Lookup :=
  let edges := edgesWith m.before.cache.edges (m.before.stored? m.event)
  let afterwards (id : EdgeId) (plain : Task) (rest : List DeviceGrant) : List Lookup :=
    match answer? ((m.before.await (.call n) plain).step m.event).2 with
    | some found => ⟨id, found⟩ :: served edges rest
    | none => []
  if m.event.ticket? = some (.call n) then
    match m.event, m.before.task? (.call n) with
    | .confirmed _ (.ok info), some .confirming => served edges info.devices
    | .record .., some (.reading id (.login l)) => afterwards id (.reading id .answer) l.remaining
    | .stored _, some (.activating ref (.login l)) =>
      afterwards l.current.id (.activating ref .answer) l.remaining
    | _, _ => []
  else []

/-- Whether a moment confirms the session of a login. -/
def opens (n : Nat) (m : Moment) : Bool :=
  match m.event, m.before.task? (.call n) with
  | .confirmed t (.ok _), some .confirming => t = .call n
  | _, _ => false

/-- What the login of a number has looked up since its session was confirmed. -/
def journal (n : Nat) (ms : List Moment) : List Lookup :=
  ms.foldl (fun js m => (if opens n m then [] else js) ++ lookups n m) []

/-- The instance that an event puts into the cache because it is current. -/
def renewed? (s : Service) (e : Event) : Option Store := (s.stored? e).filter (!·.late)

theorem journal_concat (n : Nat) (ms : List Moment) (m : Moment) :
    journal n (ms ++ [m]) = (if opens n m then [] else journal n ms) ++ lookups n m := by
  simp only [journal, List.foldl_append, List.foldl_cons, List.foldl_nil]

theorem lookups_of_ne {n : Nat} {s : Service} {e : Event} (h : e.ticket? ≠ some (.call n)) :
    lookups n ⟨s, e⟩ = [] := if_neg h

theorem opens_of_ne {n : Nat} {s : Service} {e : Event} (h : e.ticket? ≠ some (.call n)) :
    opens n ⟨s, e⟩ = false := by
  unfold opens
  split
  · rename_i he _
    have hne : e.ticket? = some _ := congrArg Event.ticket? he
    exact decide_eq_false fun ht => h (ht ▸ hne)
  · rfl

section Served

variable {edges : Cache.Recent EdgeId EdgeRef}

theorem found_of_served {grants : List DeviceGrant} {lk : Lookup} (h : lk ∈ served edges grants) :
    ∃ ref, lk.found = some ref ∧ edges.peek? lk.id = some ref := by
  induction grants with
  | nil => cases h
  | cons g rest ih =>
    rw [served] at h
    split at h
    · rename_i ref hp
      rcases List.mem_cons.mp h with rfl | h
      · exact ⟨ref, rfl, hp⟩
      · exact ih h
    · cases h

theorem ids_served_append {front more : List DeviceGrant}
    (hf : ∀ g ∈ front, ∃ ref, edges.peek? g.id = some ref)
    (hm : ∀ g ∈ more.head?, edges.peek? g.id = none) :
    (served edges (front ++ more)).map (·.id) = front.map (·.id) := by
  induction front with
  | nil =>
    cases more with
    | nil => rfl
    | cons g rest =>
      have hg := hm g rfl
      simp only [List.nil_append, served, hg, List.map_nil]
  | cons g rest ih =>
    obtain ⟨ref, hp⟩ := hf g List.mem_cons_self
    have hrest := ih fun h hm' => hf h (List.mem_cons_of_mem g hm')
    simp only [List.cons_append, served, hp, List.map_cons, hrest]

end Served

/-- What a login goes on to when it resolves some grants: either its end, with all of them looked up, or
the next edge that is not at hand, with all before it looked up. -/
structure Traversed (n : Nat) (granted : List (EdgeId × Role)) (grants : List DeviceGrant)
    (js : List Lookup) (r : Service × List Action) : Prop where
  waits : ∀ task l, r.1.task? (.call n) = some task → task.login? = some l →
    granted.map (·.1) ++ js.map (·.id) = l.granted.map (·.1)
  ends : ∀ ref, .finish (.call n) (.login (.ok ref)) ∈ r.2 →
    js.map (·.id) = grants.map (·.id)

theorem traversed_resolveGrants (s : Service) (n : Nat) (user : UserInfo)
    (granted : List (EdgeId × Role)) (grants : List DeviceGrant)
    {edges : Cache.Recent EdgeId EdgeRef} (he : ∀ id, s.cache.edges.peek? id = edges.peek? id) :
    Traversed n granted grants (served edges grants)
      (s.resolveGrants (.call n) user granted grants) := by
  have hr := resolved_resolveGrants s (.call n) user granted grants
  generalize s.resolveGrants (.call n) user granted grants = r at hr ⊢
  cases hr with
  | all edges' used there goes =>
    subst goes
    constructor
    · intro task l ht hl
      have hnone : (({ s with cache := { s.cache with edges := edges' } } : Service).commit (.call n)
          user (granted ++ grantsOf grants)).1.task? (.call n) = none := task?_close_self _ _
      rw [hnone] at ht
      cases ht
    · intro ref _
      have hno : ∀ g ∈ ([] : List DeviceGrant).head?, edges.peek? g.id = none := by
        intro g hg
        cases hg
      have hall := ids_served_append (fun g hg => he g.id ▸ there g hg) hno
      rwa [List.append_nil] at hall
  | upTo edges' used front g rest split there absent goes =>
    subst goes split
    constructor
    · intro task l ht hl
      have htask := (task?_await_self _ _ _).symm.trans ht
      cases htask
      cases hl
      rw [ids_served_append (fun h hm => he h.id ▸ there h hm)]
      · simp [grantsOf]
      · intro h hm
        cases hm
        exact (he g.id).symm.trans absent
    · intro ref hm
      cases List.mem_singleton.mp hm

section Found

variable {s : Service} {n : Nat} {l : Login}

theorem stored?_of_failed {t : Ticket} {id : EdgeId} {purpose : Purpose}
    {result : Except DirectoryError Directory.Record} (ht : s.task? t = some (.reading id purpose))
    (hf : Failed id result) (online : Bool) : s.stored? (.record t result online) = none := by
  cases result with
  | error e => rfl
  | ok reply =>
    obtain ⟨e, he⟩ := failed_iff_decodeFor.mp hf
    simp [stored?, ht, he]

theorem step_plain_record (s : Service) (n : Nat) (id : EdgeId)
    (result : Except DirectoryError Directory.Record) (online : Bool) :
    (s.await (.call n) (.reading id .answer)).step (.record (.call n) result online) =
      (s.await (.call n) (.reading id .answer)).recordRead (.call n) id .answer result online := by
  simp only [step, task?_await_self]

theorem answer?_plain_stored {ref : EdgeRef} {i : Instance} (hi : s.instance? ref = some i) :
    answer? ((s.await (.call n) (.activating ref .answer)).step (.stored (.call n))).2 =
      some (some ref) := by
  have hi' : (s.await (.call n) (.activating ref .answer)).instance? ref = some i := hi
  simp only [step, task?_await_self, install, hi']
  rfl

/-- A plain look-up has no answer yet while the activation of its edge is written. -/
theorem answer?_plain_begun {record : EdgeRecord} {reply : Directory.Record} {online : Bool}
    (hr : EdgeRecord.decodeFor record.id reply = .ok record)
    (h : online = true ∧ record.state = .inactive) :
    answer? ((s.await (.call n) (.reading record.id .answer)).step
      (.record (.call n) (.ok reply) online)).2 = none := by
  rw [step_plain_record]
  simp only [recordRead, hr, buildInstance_begun _ _ _ _ _ h]
  rfl

theorem stored?_of_installed {ref : EdgeRef} {i : Instance} {purpose : Purpose}
    (ht : s.task? (.call n) = some (.activating ref purpose)) (hi : s.instance? ref = some i)
    (hc : s.isCurrent i = true) :
    s.stored? (.stored (.call n)) = some ⟨i.edge.id, ref, i.generation, false⟩ := by
  simp [stored?, ht, hi, storeOf?, hc]

theorem edgesWith_peek?_self (edges : Cache.Recent EdgeId EdgeRef) (σ : Store) :
    (edgesWith edges (some σ)).peek? σ.id = some σ.ref := Cache.Recent.peek?_put_self _ _ _

/-- The edge that a login was waiting for is at hand if it was found: the instance that was put because
it is current, or else the one that was at hand, or else the one that was found. -/
structure Found (n : Nat) (s : Service) (e : Event) (l : Login) (found : Option EdgeRef) : Prop where
  noted : lookups n ⟨s, e⟩ =
    ⟨l.current.id, found⟩ :: served (edgesWith s.cache.edges (s.stored? e)) l.remaining
  there : (edgesWith s.cache.edges (s.stored? e)).peek? l.current.id =
    ((edgesWith s.cache.edges (s.renewed? e)).peek? l.current.id).or found

theorem found_failed {id : EdgeId} {result : Except DirectoryError Directory.Record} {online : Bool}
    (hid : id = l.current.id) (ht : s.task? (.call n) = some (.reading id (.login l)))
    (hf : Failed id result) : Found n s (.record (.call n) result online) l none := by
  have hplain : answer? ((s.await (.call n) (.reading id .answer)).step
      (.record (.call n) result online)).2 = some none := by
    rw [step_plain_record, recordRead_of_failed _ _ _ hf]
    rfl
  have hstored := stored?_of_failed ht hf online
  refine ⟨?_, ?_⟩
  · simp only [lookups, Event.ticket?, if_true, ht, hplain]
    rw [hid]
  · rw [renewed?, hstored]
    simp

theorem found_made {record : EdgeRecord} {reply : Directory.Record} {online : Bool}
    (hid : record.id = l.current.id)
    (ht : s.task? (.call n) = some (.reading record.id (.login l)))
    (hr : EdgeRecord.decodeFor record.id reply = .ok record)
    (h : ¬ (online = true ∧ record.state = .inactive)) :
    Found n s (.record (.call n) (.ok reply) online) l (some s.instances.length) := by
  have hplain : answer? ((s.await (.call n) (.reading record.id .answer)).step
      (.record (.call n) (.ok reply) online)).2 = some (some s.instances.length) := by
    rw [step_plain_record]
    simp only [recordRead, hr, buildInstance_made _ _ _ _ _ h]
    rfl
  have hstored := stored?_of_made ht hr h
  refine ⟨?_, ?_⟩
  · simp only [lookups, Event.ticket?, if_true, ht, hplain]
    rw [hid]
  · have hrenewed : s.renewed? (.record (.call n) (.ok reply) online) =
        s.stored? (.record (.call n) (.ok reply) online) := by simp [renewed?, hstored]
    rw [hrenewed, hstored, ← hid, edgesWith_peek?_self]
    rfl

theorem found_installed {ref : EdgeRef} {i : Instance} (hid : i.edge.id = l.current.id)
    (ht : s.task? (.call n) = some (.activating ref (.login l)))
    (hi : s.instance? ref = some i) (hc : s.isCurrent i = true) :
    Found n s (.stored (.call n)) l (some ref) := by
  have hplain := answer?_plain_stored (n := n) hi
  have hstored := stored?_of_installed ht hi hc
  refine ⟨?_, ?_⟩
  · simp only [lookups, Event.ticket?, if_true, ht, hplain]
  · have hrenewed : s.renewed? (.stored (.call n)) = s.stored? (.stored (.call n)) := by
      simp [renewed?, hstored]
    rw [hrenewed, hstored, ← hid, edgesWith_peek?_self]
    rfl

theorem found_superseded {ref : EdgeRef} {i : Instance}
    (ht : s.task? (.call n) = some (.activating ref (.login l)))
    (hi : s.instance? ref = some i) (hc : s.isCurrent i = false) :
    Found n s (.stored (.call n)) l (some ref) := by
  have hplain := answer?_plain_stored (n := n) hi
  refine ⟨?_, ?_⟩
  · simp only [lookups, Event.ticket?, if_true, ht, hplain]
  · cases hp : s.cache.edges.peek? l.current.id with
    | none =>
      have hstored : s.stored? (.stored (.call n)) =
          some ⟨l.current.id, ref, i.generation, true⟩ := by
        simp [stored?, ht, hi, storeOf?, hc, hp]
      have hrenewed : s.renewed? (.stored (.call n)) = none := by simp [renewed?, hstored]
      rw [hrenewed, hstored, edgesWith_peek?_self, edgesWith, hp]
      rfl
    | some there =>
      have hstored : s.stored? (.stored (.call n)) = none := by
        simp [stored?, ht, hi, storeOf?, hc, hp]
      rw [renewed?, hstored]
      simp [edgesWith, hp]

/-- An answer from the directory ends the look-up of a login, or the edge is to be activated. -/
theorem Fetched.found (ha : Aligned s) {e : Event} {r : Service × List Action}
    (h : Fetched s (.call n) (.login l) e r) :
    (lookups n ⟨s, e⟩ = [] ∧
        r.1.task? (.call n) = some (.activating s.instances.length (.login l)) ∧
        ∃ id field value, r.2 = [.write (.call n) id field value]) ∨
      ∃ found shared, r = Service.resume shared (.call n) found (.login l) ∧ Found n s e l found := by
  cases h with
  | failed ht hf => exact Or.inr ⟨none, s, rfl, found_failed (ha.reading _ _ l ht) ht hf⟩
  | @begun record reply online ht hr h =>
    refine Or.inl ⟨?_, task?_await_self _ _ _, _, _, _, rfl⟩
    simp only [lookups, Event.ticket?, if_true, ht, answer?_plain_begun hr h]
  | made ht hr h => exact Or.inr ⟨_, _, rfl, found_made (ha.reading _ _ l ht) ht hr h⟩
  | installed ht hi hc =>
    obtain ⟨j, hj, hid⟩ := ha.activating _ _ _ ht
    rw [hi] at hj
    cases hj
    exact Or.inr ⟨_, _, rfl, found_installed (hid l rfl) ht hi hc⟩
  | superseded ht hi hc => exact Or.inr ⟨_, s, rfl, found_superseded ht hi hc⟩

end Found

/-- The call is no login that looks edges up, and no login of it has ended well. -/
structure Apart (n : Nat) (r : Service × List Action) : Prop where
  after : ∀ task, r.1.task? (.call n) = some task → task.login? = none
  silent : ∀ ref, .finish (.call n) (.login (.ok ref)) ∉ r.2

/-- What an event for a call does to its login: it passes by, the call is another one or ends otherwise,
or the login resolves the grants of its session or goes on with them. -/
inductive Visit (s : Service) (n : Nat) (e : Event) (r : Service × List Action) : Prop
  | rests (noted : lookups n ⟨s, e⟩ = []) (closed : opens n ⟨s, e⟩ = false) (hr : r = (s, []))
  | apart (noted : lookups n ⟨s, e⟩ = []) (closed : opens n ⟨s, e⟩ = false) (h : Apart n r)
  | opens (info : SessionInfo) (he : e = .confirmed (.call n) (.ok info))
      (ht : s.task? (.call n) = some .confirming)
      (hr : r = s.resolveGrants (.call n) info.user [] info.devices)
  | goes (l : Login) (closed : opens n ⟨s, e⟩ = false) (h : Fetched s (.call n) (.login l) e r)

section Visit

variable {s : Service} {n : Nat} {e : Event}

theorem follows_none_iff {task : Task} : Follows none task ↔ task.login? = none := by
  cases task with
  | reading id purpose | activating ref purpose =>
    cases purpose with
    | login l =>
      apply iff_of_false
      · rintro ⟨info, hi, -⟩
        cases hi
      · exact nofun
    | answer | warmUp => exact iff_of_true trivial rfl
  | confirming | searching | queued id | storing => exact iff_of_true trivial rfl

theorem opens_eq_true {m : Moment} :
    opens n m = true ↔ m.before.task? (.call n) = some .confirming ∧
      ∃ info, m.event = .confirmed (.call n) (.ok info) := by
  unfold opens
  split
  · rename_i t info he ht
    rw [decide_eq_true_eq, he, ht]
    constructor
    · rintro rfl
      exact ⟨rfl, info, rfl⟩
    · rintro ⟨-, info', h⟩
      cases h
      rfl
  · rename_i hno
    apply iff_of_false Bool.false_ne_true
    rintro ⟨ht, info, he⟩
    exact hno _ _ he ht

theorem sessionsAfter_of_closed (h : opens n ⟨s, e⟩ = false) (sessions : Ticket → Option SessionInfo) :
    sessionsAfter sessions s e (.call n) = sessions (.call n) := by
  unfold sessionsAfter
  split
  · rename_i t info
    split
    · rename_i ht
      apply if_neg
      rintro rfl
      rw [opens_eq_true.mpr ⟨ht, info, rfl⟩] at h
      cases h
    · rfl
  · rfl

/-- A call that is no login becomes one that looks edges up only when its session is confirmed. -/
theorem apart_step {sessions : Ticket → Option SessionInfo}
    (hk : ∀ t task, s.task? t = some task → Follows (sessions t) task)
    (hn : ∀ task, s.task? (.call n) = some task → task.login? = none)
    (hc : opens n ⟨s, e⟩ = false) : Apart n (s.step e) := by
  -- the call has no session of its own, so the sessions may be read as if it had none
  have hk' (t : Ticket) (task : Task) (ht : s.task? t = some task) :
      Follows (Function.update sessions (.call n) none t) task := by
    by_cases hne : t = .call n
    · subst hne
      rw [Function.update_self]
      exact follows_none_iff.mpr (hn task ht)
    · rw [Function.update_of_ne hne]
      exact hk t task ht
  have hnone : sessionsAfter (Function.update sessions (.call n) none) s e (.call n) = none := by
    rw [sessionsAfter_of_closed hc, Function.update_self]
  have hafter (ht : ∀ t task, (s.step e).1.task? t = some task → s.task? t = some task ∨
      Follows (sessionsAfter (Function.update sessions (.call n) none) s e t) task) (task : Task)
      (htask : (s.step e).1.task? (.call n) = some task) : task.login? = none := by
    rcases ht _ task htask with hold | hnew
    · exact hn task hold
    · rw [hnone] at hnew
      exact follows_none_iff.mp hnew
  cases course_step hk' e with
  | goesOn users accounts tasks actions => exact ⟨hafter tasks, actions (.call n)⟩
  | commits session stored tasks actions =>
    refine ⟨hafter tasks, fun ref hm => ?_⟩
    rw [actions, List.mem_singleton] at hm
    cases hm
    rw [hnone] at session
    cases session

/-- Only a login that goes on, or is confirmed, looks edges up. -/
theorem lookups_eq_nil (hc : opens n ⟨s, e⟩ = false)
    (h : ∀ task l, s.task? (.call n) = some task → task.login? = some l →
      heeds n ⟨s, e⟩ = false) : lookups n ⟨s, e⟩ = [] := by
  unfold lookups
  dsimp only
  split
  · rename_i he
    split
    · rename_i t info htask
      have ht : t = .call n := Option.some.inj he
      subst ht
      rw [opens_eq_true.mpr ⟨htask, info, rfl⟩] at hc
      cases hc
    · rename_i t result online id l htask
      have ht : t = .call n := Option.some.inj he
      have hno := h _ l htask rfl
      simp [heeds, htask, ht] at hno
    · rename_i t ref l htask
      have ht : t = .call n := Option.some.inj he
      have hno := h _ l htask rfl
      simp [heeds, htask, ht] at hno
    · rfl
  · rfl

theorem visit_step {sessions : Ticket → Option SessionInfo} (ha : Aligned s)
    (hk : ∀ t task, s.task? t = some task → Follows (sessions t) task)
    (he : e.ticket? = some (.call n)) : Visit s n e (s.step e) := by
  cases ho : opens n ⟨s, e⟩ with
  | true =>
    obtain ⟨ht, info, he'⟩ := opens_eq_true.mp ho
    have he'' : e = .confirmed (.call n) (.ok info) := he'
    have ht' : s.task? (.call n) = some .confirming := ht
    refine .opens info he'' ht' ?_
    simp only [he'', step, ht']
    rfl
  | false =>
    -- a call that is no login with edges to look up stays apart until a session is confirmed
    by_cases hl : ∃ task l, s.task? (.call n) = some task ∧ task.login? = some l
    · obtain ⟨task, l, ht, hl⟩ := hl
      by_cases hd : e = .drop n
      · subst hd
        refine .apart (if_pos rfl) rfl ⟨fun task ht => ?_, fun ref hm => absurd hm List.not_mem_nil⟩
        rw [step, task?_close_self] at ht
        cases ht
      · rcases step_login ha ht hl he hd with ⟨-, hf⟩ | ⟨hheeds, hr⟩
        · exact .goes l ho hf
        · exact .rests (lookups_eq_nil ho fun _ _ _ _ => hheeds) ho hr
    · have hno (task : Task) (ht : s.task? (.call n) = some task) : task.login? = none := by
        refine Option.eq_none_iff_forall_ne_some.mpr fun l hlogin => ?_
        exact hl ⟨task, l, ht, hlogin⟩
      refine .apart (lookups_eq_nil ho fun task l ht hlogin => ?_) ho (apart_step hk hno ho)
      rw [hno task ht] at hlogin
      cases hlogin

end Visit

end EdgeFleet.Service
