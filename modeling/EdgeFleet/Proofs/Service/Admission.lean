import EdgeFleet.Proofs.Service.Account
import EdgeFleet.Proofs.Service.Erasure

namespace EdgeFleet.Service

/-- The call that an event starts or gives up. -/
def Event.call? : Event → Option Nat
  | .lookUp n _ | .refresh n _ | .logIn n _ | .resolve n _ | .findUser n _ | .update n _ _
  | .drop n => some n
  | .confirmed .. | .searched .. | .turn _ | .record .. | .stored _ | .worker _ => none

/-- What an action answers a login with. -/
def Action.login? (n : Nat) : Action → Option (Except ServiceError AccountRef)
  | .finish (.call m) (.login result) => if m = n then some result else none
  | _ => none

def loginAnswers (n : Nat) (ms : List Moment) : List (Except ServiceError AccountRef) :=
  ms.flatMap fun m => m.actions.filterMap (Action.login? n)

def requestsOf (n : Nat) (ms : List Moment) : List Action :=
  ms.flatMap fun m => m.actions.filter (·.request? = some (.call n))

def Task.Pends : Task → Prop
  | .reading .. | .activating .. => True
  | .confirming | .searching | .queued _ | .storing => False

/-- What a session comes to: it must be there, and then its confirmation counts. -/
def verdict (session : Option String) (result : Except AuthError SessionInfo) :
    Except AuthError SessionInfo :=
  match session with
  | none => .error .missingSession
  | some text => if text = "" then .error .missingSession else result

theorem verdict_eq_ok {session : Option String} {result : Except AuthError SessionInfo}
    {info : SessionInfo} :
    verdict session result = .ok info ↔
      (∃ text, session = some text ∧ text ≠ "") ∧ result = .ok info := by
  cases session with
  | none => simp [verdict]
  | some text =>
    by_cases h : text = ""
    · simp [verdict, h]
    · simp [verdict, h]

/-- Actions that neither answer a login of the call nor ask anything for the call. -/
structure Aloof (n : Nat) (actions : List Action) : Prop where
  login : actions.filterMap (Action.login? n) = []
  requests : actions.filter (·.request? = some (.call n)) = []

theorem eq_of_login? {n : Nat} {a : Action} {result : Except ServiceError AccountRef}
    (h : a.login? n = some result) : a = .finish (.call n) (.login result) := by
  unfold Action.login? at h
  split at h
  · split at h
    · rename_i hm
      cases h
      rw [hm]
    · cases h
  · cases h

theorem Move.aloof {s : Service} {e : Event} {r : Service × List Action} (h : Move s e r) {n : Nat}
    (he : e.ticket? ≠ some (.call n)) : Aloof n r.2 := by
  constructor
  · refine List.filterMap_eq_nil_iff.mpr fun a ha => Option.eq_none_iff_forall_ne_some.mpr ?_
    intro result hl
    exact he (h.ticket?_of_login (eq_of_login? hl ▸ ha))
  · refine List.filter_eq_nil_iff.mpr fun a ha hq => ?_
    exact he (h.ticket?_of_request ha (of_decide_eq_true hq))

theorem step_idle {s : Service} {n : Nat} {e : Event} (hn : s.task? (.call n) = none)
    (he : e.call? ≠ some n) (ht : e.ticket? = some (.call n)) : s.step e = (s, []) := by
  cases e with
  | lookUp m id | refresh m id | logIn m session | resolve m apikey | findUser m id
  | update m ref u | drop m =>
    cases ht
    exact absurd rfl he
  | confirmed t result | searched t result | turn t | record t result online | stored t =>
    cases ht
    simp only [step, hn]
  | worker we => cases ht

theorem Sound.aloof_step {s : Service} (h : Sound s) {n : Nat} {e : Event}
    (he : e.ticket? ≠ some (.call n) ∨ s.task? (.call n) = none ∧ e.call? ≠ some n) :
    Aloof n (s.step e).2 ∧ (s.step e).1.task? (.call n) = s.task? (.call n) := by
  by_cases ht : e.ticket? = some (.call n)
  · obtain ⟨hn, hc⟩ := he.resolve_left fun hne => hne ht
    rw [step_idle hn hc ht]
    exact ⟨⟨rfl, rfl⟩, rfl⟩
  · exact ⟨(move_step h.aligned h.suited e).aloof ht, task?_call_step h.aligned h.suited ht⟩

theorem loginAnswers_cons (n : Nat) (s : Service) (e : Event) (ms : List Moment) :
    loginAnswers n (⟨s, e⟩ :: ms) = (s.step e).2.filterMap (Action.login? n) ++ loginAnswers n ms :=
  List.flatMap_cons

theorem requestsOf_cons (n : Nat) (s : Service) (e : Event) (ms : List Moment) :
    requestsOf n (⟨s, e⟩ :: ms) =
      (s.step e).2.filter (·.request? = some (.call n)) ++ requestsOf n ms :=
  List.flatMap_cons

theorem loginAnswers_append (n : Nat) (ms more : List Moment) :
    loginAnswers n (ms ++ more) = loginAnswers n ms ++ loginAnswers n more :=
  List.flatMap_append

theorem requestsOf_append (n : Nat) (ms more : List Moment) :
    requestsOf n (ms ++ more) = requestsOf n ms ++ requestsOf n more :=
  List.flatMap_append

theorem Sound.aloof_run {s : Service} (h : Sound s) {n : Nat} {es : List Event}
    (he : ∀ e ∈ es, e.ticket? ≠ some (.call n) ∨ s.task? (.call n) = none ∧ e.call? ≠ some n) :
    loginAnswers n (s.moments es) = [] ∧ requestsOf n (s.moments es) = [] ∧
      (s.run es).task? (.call n) = s.task? (.call n) := by
  induction es generalizing s with
  | nil => exact ⟨rfl, rfl, rfl⟩
  | cons e rest ih =>
    obtain ⟨haloof, htask⟩ := h.aloof_step (he e List.mem_cons_self)
    obtain ⟨hlogin, hrequests, hrest⟩ := ih (h.step e) fun e' hm => by
      rw [htask]
      exact he e' (List.mem_cons_of_mem e hm)
    refine ⟨?_, ?_, hrest.trans htask⟩
    · rw [moments, loginAnswers_cons, haloof.login, hlogin, List.append_nil]
    · rw [moments, requestsOf_cons, haloof.requests, hrequests, List.append_nil]

/-- A login resolves the grants of its session. The number bounds the answers that it still needs from
the directory: two for each edge, as one may have to be activated. -/
inductive Resolving (s : Service) (n : Nat) (info : SessionInfo) : Nat → Prop
  | reads {id : EdgeId} {l : Login} (ht : s.task? (.call n) = some (.reading id (.login l)))
      (hl : l.Of info) : Resolving s n info (2 * l.remaining.length + 2)
  | activates {ref : EdgeRef} {l : Login}
      (ht : s.task? (.call n) = some (.activating ref (.login l))) (hl : l.Of info) :
      Resolving s n info (2 * l.remaining.length + 1)

/-- A login goes on with fewer answers to wait for, or it ends with all that its session grants. -/
inductive Resolves (n : Nat) (info : SessionInfo) (bound : Nat) (r : Service × List Action) : Prop
  | waits (b : Nat) (hb : b < bound) (h : Resolving r.1 n info b)
      (silent : r.2.filterMap (Action.login? n) = [])
  | answers (ref : AccountRef) (ht : r.1.task? (.call n) = none)
      (actions : r.2 = [.finish (.call n) (.login (.ok ref))]) (shows : Shows r.1.cache info ref)

section Resolves

variable {s : Service} {n : Nat} {info : SessionInfo}

theorem Resolves.mono {bound bound' : Nat} {r : Service × List Action}
    (h : Resolves n info bound r) (hb : bound ≤ bound') : Resolves n info bound' r := by
  cases h with
  | waits b hlt h silent => exact .waits b (Nat.lt_of_lt_of_le hlt hb) h silent
  | answers ref ht actions shows => exact .answers ref ht actions shows

theorem resolves_resolveGrants (hacc : Accounted s.cache) {done grants : List DeviceGrant}
    (hd : info.devices = done ++ grants) :
    Resolves n info (2 * grants.length + 1)
      (s.resolveGrants (.call n) info.user (grantsOf done) grants) := by
  have hr := resolved_resolveGrants s (.call n) info.user (grantsOf done) grants
  generalize s.resolveGrants (.call n) info.user (grantsOf done) grants = r at hr ⊢
  have happend (front : List DeviceGrant) :
      grantsOf done ++ grantsOf front = grantsOf (done ++ front) := by simp [grantsOf]
  cases hr with
  | all edges used there goes =>
    subst goes
    rw [happend, ← hd]
    have hacc' : Accounted { s.cache with edges } := hacc
    refine .answers _ ?_ rfl (hacc'.shows (stored_upsertUser _ info))
    exact task?_close_self _ _
  | upTo edges used front g rest split there absent goes =>
    subst goes split
    rw [happend]
    have hl : Login.Of ⟨info.user, grantsOf (done ++ front), g, rest⟩ info := by
      refine ⟨rfl, done ++ front, ?_, rfl⟩
      rw [hd, List.append_assoc]
    refine .waits (2 * rest.length + 2) ?_ (.reads (task?_await_self _ _ _) hl) rfl
    rw [List.length_append, List.length_cons]
    omega

theorem resolves_resume (hacc : Accounted s.cache) {l : Login} (hl : l.Of info)
    (found : Option EdgeRef) :
    Resolves n info (2 * l.remaining.length + 1) (s.resume (.call n) found (.login l)) := by
  obtain ⟨hu, done, hd, hg⟩ := hl
  obtain ⟨edges, he⟩ := keepFound_eq s l.current.id found
  simp only [resume, he, hu, hg, ← grantsOf_concat]
  have hacc' : Accounted ({ s with cache := { s.cache with edges } } : Service).cache := hacc
  refine resolves_resolveGrants hacc' ?_
  rw [hd, List.append_assoc]
  rfl

theorem Resolving.eq_of_reading {b : Nat} (hb : Resolving s n info b) {id : EdgeId} {l : Login}
    (ht : s.task? (.call n) = some (.reading id (.login l))) : b = 2 * l.remaining.length + 2 := by
  cases hb with
  | reads ht' =>
    rw [ht] at ht'
    cases ht'
    rfl
  | activates ht' =>
    rw [ht] at ht'
    cases ht'

theorem Resolving.eq_of_activating {b : Nat} (hb : Resolving s n info b) {ref : EdgeRef} {l : Login}
    (ht : s.task? (.call n) = some (.activating ref (.login l))) :
    b = 2 * l.remaining.length + 1 := by
  cases hb with
  | reads ht' =>
    rw [ht] at ht'
    cases ht'
  | activates ht' =>
    rw [ht] at ht'
    cases ht'
    rfl

/-- An answer from the directory brings the login nearer to its end, whatever the answer is. -/
theorem Fetched.resolves {l : Login} {e : Event} {r : Service × List Action}
    (h : Fetched s (.call n) (.login l) e r) (hacc : Accounted s.cache) (hl : l.Of info) {b : Nat}
    (hb : Resolving s n info b) : Resolves n info b r := by
  cases h with
  | failed ht hf =>
    apply (resolves_resume hacc hl none).mono
    rw [hb.eq_of_reading ht]
    omega
  | begun ht hr h =>
    refine .waits (2 * l.remaining.length + 1) ?_
      (.activates (task?_await_self _ _ _) hl) rfl
    rw [hb.eq_of_reading ht]
    omega
  | @made record reply online ht hr h =>
    have hacc' : Accounted ((s.withInstance record online).withStore record.id
        s.instances.length).cache := hacc
    apply (resolves_resume hacc' hl _).mono
    rw [hb.eq_of_reading ht]
    omega
  | @installed ref i ht hi hc =>
    have hacc' : Accounted (s.withStore i.edge.id ref).cache := hacc
    apply (resolves_resume hacc' hl _).mono
    exact Nat.le_of_eq (hb.eq_of_activating ht).symm
  | superseded ht hi hc =>
    apply (resolves_resume hacc hl _).mono
    exact Nat.le_of_eq (hb.eq_of_activating ht).symm

theorem Resolving.login {b : Nat} (h : Resolving s n info b) :
    ∃ task l, s.task? (.call n) = some task ∧ task.login? = some l ∧ l.Of info := by
  cases h with
  | reads ht hl => exact ⟨_, _, ht, rfl, hl⟩
  | activates ht hl => exact ⟨_, _, ht, rfl, hl⟩

/-- An event for a login either is the answer that it waits for or comes to nothing. -/
theorem Resolving.step (h : Sound s) {b : Nat} (hb : Resolving s n info b) {e : Event}
    (ht : e.ticket? = some (.call n)) (he : e.call? ≠ some n) :
    heeds n ⟨s, e⟩ = true ∧ Resolves n info b (s.step e) ∨
      heeds n ⟨s, e⟩ = false ∧ s.step e = (s, []) := by
  have hd : e ≠ .drop n := by
    rintro rfl
    exact he rfl
  obtain ⟨task, l, htask, hl, hof⟩ := hb.login
  refine (step_login h.aligned htask hl ht hd).imp_left fun ⟨hheeds, hf⟩ => ?_
  exact ⟨hheeds, hf.resolves h.accounted hof hb⟩

theorem Resolving.pos {b : Nat} (h : Resolving s n info b) : 0 < b := by
  cases h <;> exact Nat.succ_pos _

theorem Resolving.pends {b : Nat} (h : Resolving s n info b) :
    ∃ task, s.task? (.call n) = some task ∧ task.Pends := by
  cases h with
  | reads ht hl => exact ⟨_, ht, trivial⟩
  | activates ht hl => exact ⟨_, ht, trivial⟩

theorem Resolving.of_task? {s' : Service} {b : Nat} (h : Resolving s n info b)
    (ht : s'.task? (.call n) = s.task? (.call n)) : Resolving s' n info b := by
  cases h with
  | reads hs hl => exact .reads (ht.trans hs) hl
  | activates hs hl => exact .activates (ht.trans hs) hl

end Resolves

theorem mem_loginAnswers {n : Nat} {ms : List Moment} {m : Moment} (hm : m ∈ ms)
    {a : Except ServiceError AccountRef} (ha : .finish (.call n) (.login a) ∈ m.actions) :
    a ∈ loginAnswers n ms :=
  List.mem_flatMap.mpr ⟨m, hm, List.mem_filterMap.mpr ⟨_, ha, if_pos rfl⟩⟩

/-- What has become of a confirmed login: it has been answered well, or it still waits for the directory
and has had fewer answers than it may need. -/
structure Progress (n : Nat) (info : SessionInfo) (ms : List Moment) (s : Service) : Prop where
  course : (∃ ref, loginAnswers n ms = [.ok ref]) ∧ s.task? (.call n) = none ∨
    loginAnswers n ms = [] ∧ ∃ b, Resolving s n info b ∧
      b + ms.countP (heeds n) ≤ 2 * info.devices.length
  shows : ∀ m ∈ ms, ∀ ref, .finish (.call n) (.login (.ok ref)) ∈ m.actions →
    Shows m.after.cache info ref

section Progress

variable {n : Nat} {info : SessionInfo} {ms : List Moment} {s : Service} {e : Event}

theorem loginAnswers_concat (n : Nat) (ms : List Moment) (s : Service) (e : Event) :
    loginAnswers n (ms ++ [⟨s, e⟩]) =
      loginAnswers n ms ++ (s.step e).2.filterMap (Action.login? n) := by
  rw [loginAnswers_append, loginAnswers_cons]
  exact congrArg (loginAnswers n ms ++ ·) (List.append_nil _)

theorem shows_concat
    (h : ∀ m ∈ ms, ∀ ref, .finish (.call n) (.login (.ok ref)) ∈ m.actions →
      Shows m.after.cache info ref)
    (hnew : ∀ ref, .finish (.call n) (.login (.ok ref)) ∈ (s.step e).2 →
      Shows (s.step e).1.cache info ref) :
    ∀ m ∈ ms ++ [⟨s, e⟩], ∀ ref, .finish (.call n) (.login (.ok ref)) ∈ m.actions →
      Shows m.after.cache info ref := by
  intro m hm ref ha
  rcases List.mem_append.mp hm with hm | hm
  · exact h m hm ref ha
  · rw [List.mem_singleton.mp hm] at ha ⊢
    exact hnew ref ha

theorem not_finish_of_silent {actions : List Action}
    (h : actions.filterMap (Action.login? n) = []) (a : Except ServiceError AccountRef) :
    .finish (.call n) (.login a) ∉ actions := by
  intro hm
  have hnone := List.filterMap_eq_nil_iff.mp h _ hm
  rw [Action.login?, if_pos rfl] at hnone
  cases hnone

/-- An answer from the directory, or the confirmation, brings the login nearer to its end. -/
theorem Resolves.progress {bound : Nat} (h : Resolves n info bound (s.step e))
    (hnone : loginAnswers n ms = [])
    (hb : bound + List.countP (heeds n) (ms ++ [⟨s, e⟩]) ≤ 2 * info.devices.length + 1) :
    Progress n info (ms ++ [⟨s, e⟩]) (s.step e).1 := by
  have hold (m : Moment) (hm : m ∈ ms) (ref : AccountRef)
      (ha : .finish (.call n) (.login (.ok ref)) ∈ m.actions) : Shows m.after.cache info ref := by
    have hmem := mem_loginAnswers hm ha
    rw [hnone] at hmem
    cases hmem
  cases h with
  | waits b hlt h silent =>
    refine ⟨Or.inr ⟨?_, b, h, by omega⟩, shows_concat hold fun ref ha => ?_⟩
    · rw [loginAnswers_concat, hnone, silent]
      rfl
    · exact absurd ha (not_finish_of_silent silent _)
  | answers ref ht actions shows =>
    refine ⟨Or.inl ⟨⟨ref, ?_⟩, ht⟩, shows_concat hold fun ref' ha => ?_⟩
    · rw [loginAnswers_concat, hnone, actions]
      simp [Action.login?]
    · rw [actions, List.mem_singleton] at ha
      cases ha
      exact shows

theorem Progress.step (h : Progress n info ms s) (hs : Sound s) (he : e.call? ≠ some n) :
    Progress n info (ms ++ [⟨s, e⟩]) (s.step e).1 := by
  have hsilent (hno : (s.step e).2.filterMap (Action.login? n) = []) :
      loginAnswers n (ms ++ [⟨s, e⟩]) = loginAnswers n ms ∧
        ∀ m ∈ ms ++ [⟨s, e⟩], ∀ ref, .finish (.call n) (.login (.ok ref)) ∈ m.actions →
          Shows m.after.cache info ref := by
    rw [loginAnswers_concat, hno, List.append_nil]
    exact ⟨rfl, shows_concat h.shows fun ref ha => absurd ha (not_finish_of_silent hno _)⟩
  rcases h.course with ⟨⟨ref, hanswer⟩, htask⟩ | ⟨hnone, b, hb, hcount⟩
  · obtain ⟨haloof, hstill⟩ := hs.aloof_step (Or.inr ⟨htask, he⟩)
    obtain ⟨hanswers, hshows⟩ := hsilent haloof.login
    exact ⟨Or.inl ⟨⟨ref, hanswers.trans hanswer⟩, hstill.trans htask⟩, hshows⟩
  · -- either the answer that the login waits for, and the bound drops, or the login is as it was
    have hconcat : List.countP (heeds n) (ms ++ [⟨s, e⟩]) =
        List.countP (heeds n) ms + List.countP (heeds n) [⟨s, e⟩] := List.countP_append
    have hquiet (haloof : (s.step e).2.filterMap (Action.login? n) = [])
        (hstill : (s.step e).1.task? (.call n) = s.task? (.call n))
        (hheeds : heeds n ⟨s, e⟩ = false) : Progress n info (ms ++ [⟨s, e⟩]) (s.step e).1 := by
      obtain ⟨hanswers, hshows⟩ := hsilent haloof
      rw [List.countP_singleton, hheeds, if_neg Bool.false_ne_true] at hconcat
      exact ⟨Or.inr ⟨hanswers.trans hnone, b, hb.of_task? hstill, by omega⟩, hshows⟩
    by_cases ht : e.ticket? = some (.call n)
    · rcases hb.step hs ht he with ⟨hheeds, hr⟩ | ⟨hheeds, hr⟩
      · rw [List.countP_singleton, hheeds, if_pos rfl] at hconcat
        exact hr.progress hnone (by omega)
      · apply hquiet _ _ hheeds
        · rw [hr]
          rfl
        · rw [hr]
    · obtain ⟨haloof, hstill⟩ := hs.aloof_step (Or.inl ht)
      exact hquiet haloof.login hstill (heeds_of_ne ht)

theorem Progress.run {es : List Event} (h : Progress n info ms s) (hs : Sound s)
    (he : ∀ e ∈ es, e.call? ≠ some n) : Progress n info (ms ++ s.moments es) (s.run es) := by
  induction es generalizing ms s with
  | nil =>
    rw [moments, List.append_nil]
    exact h
  | cons e rest ih =>
    have hnext := h.step hs (he e List.mem_cons_self)
    have hrest := ih hnext (hs.step e) fun e' hm => he e' (List.mem_cons_of_mem e hm)
    rwa [List.append_assoc] at hrest

end Progress

/-- The events of a login until its session has been confirmed or denied. -/
def loginWith (n : Nat) (session : Option String) (waiting : List Event)
    (result : Except AuthError SessionInfo) : List Event :=
  .logIn n session :: (waiting ++ [.confirmed (.call n) result])

/-- What becomes of a login: `s` is the service when it comes, `waiting` is what happens until its session
has been confirmed or denied, and `rest` what happens then. -/
structure Admission (n : Nat) (session : Option String) (result : Except AuthError SessionInfo)
    (s : Service) (waiting rest : List Event) : Prop where
  /-- It is answered well just if there is a session and it is confirmed. -/
  decides : ∀ a ∈ loginAnswers n (s.moments (loginWith n session waiting result ++ rest)),
    (∃ ref, a = .ok ref) ↔ (∃ text, session = some text ∧ text ≠ "") ∧ ∃ info, result = .ok info
  /-- Otherwise it is answered with the error of the session, and all that it has asked for is to confirm
  a session that there is. -/
  refused : ∀ e, verdict session result = .error e →
    loginAnswers n (s.moments (loginWith n session waiting result ++ rest)) = [.error (.auth e)] ∧
      requestsOf n (s.moments (loginWith n session waiting result ++ rest)) =
        (session.toList.filter (· ≠ "")).map (.confirm (.call n))
  /-- The service is then as if the login had never come. -/
  traceless : ∀ e, verdict session result = .error e →
    s.run (loginWith n session waiting result) = s.run waiting
  /-- Until then the others do the same. -/
  unnoticed : ((s.step (.logIn n session)).1.moments waiting).map Moment.actions =
    (s.moments waiting).map Moment.actions
  /-- A confirmed login is answered once; until then it waits for the directory, which has to answer
  twice for each edge at most. -/
  admitted : ∀ info, verdict session result = .ok info →
    (∃ ref, loginAnswers n (s.moments (loginWith n session waiting result ++ rest)) = [.ok ref]) ∨
      (∃ task, (s.run (loginWith n session waiting result ++ rest)).task? (.call n) = some task ∧
        task.Pends) ∧
        ((s.run (loginWith n session waiting result)).moments rest).countP (heeds n) <
          2 * info.devices.length
  /-- It then grants all that its session lists. -/
  grants : ∀ info, verdict session result = .ok info →
    ∀ m ∈ s.moments (loginWith n session waiting result ++ rest), ∀ ref,
      .finish (.call n) (.login (.ok ref)) ∈ m.actions → Shows m.after.cache info ref

theorem step_logIn_missing {s : Service} {n : Nat} (hn : s.task? (.call n) = none)
    {session : Option String} (h : session.filter (· ≠ "") = none) :
    s.step (.logIn n session) =
      (s, [.finish (.call n) (.login (.error (.auth .missingSession)))]) := by
  rw [step, whenFree_of_free hn]
  simp only [startLogin, h, finish, close_of_task?_none hn]

theorem step_logIn_present {s : Service} {n : Nat} (hn : s.task? (.call n) = none)
    {session : Option String} {text : String} (h : session.filter (· ≠ "") = some text) :
    s.step (.logIn n session) = (s.await (.call n) .confirming, [.confirm (.call n) text]) := by
  rw [step, whenFree_of_free hn]
  simp only [startLogin, h]

theorem verdict_of_filter (session : Option String) (result : Except AuthError SessionInfo) :
    (session.filter (· ≠ "") = none ∧ session.toList.filter (· ≠ "") = [] ∧
        verdict session result = .error .missingSession) ∨
      ∃ text, session.filter (· ≠ "") = some text ∧ session.toList.filter (· ≠ "") = [text] ∧
        verdict session result = result := by
  cases session with
  | none => exact Or.inl ⟨rfl, rfl, rfl⟩
  | some text =>
    by_cases h : text = ""
    · exact Or.inl (by simp [verdict, h])
    · exact Or.inr ⟨text, by simp [verdict, h]⟩

section Login

variable {n : Nat} {session : Option String} {result : Except AuthError SessionInfo} {s : Service}
  {waiting rest : List Event}

theorem moments_loginWith (n : Nat) (session : Option String) (waiting : List Event)
    (result : Except AuthError SessionInfo) (rest : List Event) (s : Service) :
    s.moments (loginWith n session waiting result ++ rest) =
      ⟨s, .logIn n session⟩ :: ((s.step (.logIn n session)).1.moments waiting ++
        ((s.step (.logIn n session)).1.run waiting).moments
          (.confirmed (.call n) result :: rest)) := by
  rw [loginWith, List.cons_append, List.append_assoc, moments, moments_append]
  rfl

theorem run_loginWith (n : Nat) (session : Option String) (waiting : List Event)
    (result : Except AuthError SessionInfo) (s : Service) :
    s.run (loginWith n session waiting result) =
      (((s.step (.logIn n session)).1.run waiting).step (.confirmed (.call n) result)).1 :=
  run_concat (s.step (.logIn n session)).1 waiting (.confirmed (.call n) result)

/-- Without a session nothing is asked, and what comes later for the call is passed over. -/
theorem admission_missing (hs : Sound s) (hn : s.task? (.call n) = none)
    (hw : ∀ e ∈ waiting, e.ticket? ≠ some (.call n)) (hr : ∀ e ∈ rest, e.call? ≠ some n)
    (h : session.filter (· ≠ "") = none) :
    loginAnswers n (s.moments (loginWith n session waiting result ++ rest)) =
        [.error (.auth .missingSession)] ∧
      requestsOf n (s.moments (loginWith n session waiting result ++ rest)) = [] ∧
      s.run (loginWith n session waiting result) = s.run waiting := by
  have hlater (e : Event) (he : e ∈ .confirmed (.call n) result :: rest) : e.call? ≠ some n := by
    rcases List.mem_cons.mp he with rfl | he
    · intro hc
      cases hc
    · exact hr e he
  obtain ⟨hlogin, hrequests, hstill⟩ := hs.aloof_run fun e he => Or.inl (hw e he)
  have hidle := hstill.trans hn
  obtain ⟨hlogin', hrequests', -⟩ :=
    (hs.run waiting).aloof_run fun e he => Or.inr ⟨hidle, hlater e he⟩
  rw [moments_loginWith, run_loginWith, loginAnswers_cons, requestsOf_cons, loginAnswers_append,
    requestsOf_append, step_logIn_missing hn h, hlogin, hrequests, hlogin', hrequests',
    step_idle hidle (hlater _ List.mem_cons_self) rfl]
  simp [Action.login?, Action.request?]

/-- A session that is denied ends the login, and the service is as if it had never come. -/
theorem admission_denied (hs : Sound s) (hn : s.task? (.call n) = none)
    (hw : ∀ e ∈ waiting, e.ticket? ≠ some (.call n)) (hr : ∀ e ∈ rest, e.call? ≠ some n)
    {text : String} (h : session.filter (· ≠ "") = some text) (e : AuthError) :
    loginAnswers n (s.moments (loginWith n session waiting (.error e) ++ rest)) =
        [.error (.auth e)] ∧
      requestsOf n (s.moments (loginWith n session waiting (.error e) ++ rest)) =
        [.confirm (.call n) text] ∧
      s.run (loginWith n session waiting (.error e)) = s.run waiting := by
  have hasked := step_logIn_present hn h
  have hs' := hs.step (.logIn n session)
  rw [hasked] at hs'
  obtain ⟨hlogin, hrequests, hstill⟩ := hs'.aloof_run fun e he => Or.inl (hw e he)
  have htask : ((s.await (.call n) .confirming).run waiting).task? (.call n) = some .confirming :=
    hstill.trans (task?_await_self _ _ _)
  have hdenied : ((s.await (.call n) .confirming).run waiting).step
      (.confirmed (.call n) (.error e)) =
        (s.run waiting, [.finish (.call n) (.login (.error (.auth e)))]) := by
    rw [← (run_await hn .confirming hw).1, step, htask]
    rfl
  have hidle : (s.run waiting).task? (.call n) = none :=
    (hs.aloof_run fun e he => Or.inl (hw e he)).2.2.trans hn
  obtain ⟨hlogin', hrequests', -⟩ :=
    (hs.run waiting).aloof_run fun e he => Or.inr ⟨hidle, hr e he⟩
  rw [moments_loginWith, run_loginWith, loginAnswers_cons, requestsOf_cons, loginAnswers_append,
    requestsOf_append, hasked, hlogin, hrequests, moments, loginAnswers_cons, requestsOf_cons,
    hdenied, hlogin', hrequests']
  simp [Action.login?, Action.request?]

/-- A session that is confirmed is followed until its login ends. -/
theorem progress_admitted (hs : Sound s) (hn : s.task? (.call n) = none)
    (hw : ∀ e ∈ waiting, e.ticket? ≠ some (.call n)) (hr : ∀ e ∈ rest, e.call? ≠ some n)
    {text : String} (h : session.filter (· ≠ "") = some text) (info : SessionInfo) :
    loginAnswers n (⟨s, .logIn n session⟩ :: (s.step (.logIn n session)).1.moments waiting) = [] ∧
      Progress n info
        (((s.step (.logIn n session)).1.run waiting).moments (.confirmed (.call n) (.ok info) :: rest))
        ((s.run (loginWith n session waiting (.ok info))).run rest) := by
  have hasked := step_logIn_present hn h
  have hs' := hs.step (.logIn n session)
  rw [run_loginWith, loginAnswers_cons, hasked]
  rw [hasked] at hs'
  obtain ⟨hlogin, -, hstill⟩ := hs'.aloof_run fun e he => Or.inl (hw e he)
  have htask : ((s.await (.call n) .confirming).run waiting).task? (.call n) = some .confirming :=
    hstill.trans (task?_await_self _ _ _)
  have hconfirmed := hs'.run waiting
  generalize (s.await (.call n) .confirming).run waiting = s' at htask hconfirmed ⊢
  -- the confirmation is followed by two answers at most for each grant
  have hstart : Resolves n info (2 * info.devices.length + 1)
      (s'.step (.confirmed (.call n) (.ok info))) := by
    rw [step, htask]
    exact resolves_resolveGrants hconfirmed.accounted (List.nil_append info.devices).symm
  have hbegun : Progress n info ([] ++ [⟨s', .confirmed (.call n) (.ok info)⟩])
      (s'.step (.confirmed (.call n) (.ok info))).1 := by
    apply hstart.progress rfl
    exact Nat.le_refl _
  refine ⟨?_, hbegun.run (hconfirmed.step _) hr⟩
  rw [hlogin]
  rfl

/-- A login that is not to be admitted gets the error of its session, and asks for no more than to
confirm it. -/
theorem admission_refused (hs : Sound s) (hn : s.task? (.call n) = none)
    (hw : ∀ e ∈ waiting, e.ticket? ≠ some (.call n)) (hr : ∀ e ∈ rest, e.call? ≠ some n)
    {e : AuthError} (hv : verdict session result = .error e) :
    loginAnswers n (s.moments (loginWith n session waiting result ++ rest)) = [.error (.auth e)] ∧
      requestsOf n (s.moments (loginWith n session waiting result ++ rest)) =
        (session.toList.filter (· ≠ "")).map (.confirm (.call n)) ∧
      s.run (loginWith n session waiting result) = s.run waiting := by
  rcases verdict_of_filter session result with ⟨hf, hl, hv'⟩ | ⟨text, hf, hl, hv'⟩
  · rw [hv] at hv'
    cases hv'
    rw [hl]
    exact admission_missing hs hn hw hr hf
  · rw [hv] at hv'
    rw [hl, ← hv']
    exact admission_denied hs hn hw hr hf e

theorem progress_of_verdict (hs : Sound s) (hn : s.task? (.call n) = none)
    (hw : ∀ e ∈ waiting, e.ticket? ≠ some (.call n)) (hr : ∀ e ∈ rest, e.call? ≠ some n)
    {info : SessionInfo} (hv : verdict session result = .ok info) :
    loginAnswers n (⟨s, .logIn n session⟩ :: (s.step (.logIn n session)).1.moments waiting) = [] ∧
      Progress n info
        (((s.step (.logIn n session)).1.run waiting).moments (.confirmed (.call n) result :: rest))
        ((s.run (loginWith n session waiting result)).run rest) := by
  obtain ⟨⟨text, rfl, hne⟩, rfl⟩ := verdict_eq_ok.mp hv
  have hf : (some text).filter (· ≠ "") = some text := by simp [hne]
  exact progress_admitted hs hn hw hr hf info

/-- A login that is to be admitted is answered well, or it waits for an answer that it may need. -/
theorem admission_admitted (hs : Sound s) (hn : s.task? (.call n) = none)
    (hw : ∀ e ∈ waiting, e.ticket? ≠ some (.call n)) (hr : ∀ e ∈ rest, e.call? ≠ some n)
    {info : SessionInfo} (hv : verdict session result = .ok info) :
    (∃ ref, loginAnswers n (s.moments (loginWith n session waiting result ++ rest)) = [.ok ref]) ∨
      loginAnswers n (s.moments (loginWith n session waiting result ++ rest)) = [] ∧
        (∃ task, (s.run (loginWith n session waiting result ++ rest)).task? (.call n) = some task ∧
          task.Pends) ∧
        ((s.run (loginWith n session waiting result)).moments rest).countP (heeds n) <
          2 * info.devices.length := by
  obtain ⟨hnone, hp⟩ := progress_of_verdict hs hn hw hr hv
  rw [moments_loginWith, ← List.cons_append, loginAnswers_append, hnone, List.nil_append]
  rcases hp.course with ⟨hanswer, -⟩ | ⟨hanswer, b, hb, hcount⟩
  · exact Or.inl hanswer
  · rw [run_append]
    refine Or.inr ⟨hanswer, hb.pends, ?_⟩
    rw [run_loginWith]
    have hpos := hb.pos
    have hcons : List.countP (heeds n) (((s.step (.logIn n session)).1.run waiting).moments
        (.confirmed (.call n) result :: rest)) =
          List.countP (heeds n) ((((s.step (.logIn n session)).1.run waiting).step
            (.confirmed (.call n) result)).1.moments rest) :=
      List.countP_cons_of_neg Bool.false_ne_true
    omega

theorem actions_logIn (hn : s.task? (.call n) = none)
    (hw : ∀ e ∈ waiting, e.ticket? ≠ some (.call n)) :
    ((s.step (.logIn n session)).1.moments waiting).map Moment.actions =
      (s.moments waiting).map Moment.actions := by
  cases hf : session.filter (· ≠ "") with
  | none => rw [step_logIn_missing hn hf]
  | some text =>
    rw [step_logIn_present hn hf]
    exact (run_await hn .confirming hw).2

end Login

/-- Whatever happens before and meanwhile, a login ends well exactly if its session is there and
confirmed, and else leaves no trace. -/
theorem admission_run {settings : Settings} {before : List Event} {n : Nat}
    (hn : ((start settings).run before).task? (.call n) = none) (session : Option String)
    (result : Except AuthError SessionInfo) {waiting rest : List Event}
    (hw : ∀ e ∈ waiting, e.ticket? ≠ some (.call n)) (hr : ∀ e ∈ rest, e.call? ≠ some n) :
    Admission n session result ((start settings).run before) waiting rest := by
  have hs := sound_run settings before
  generalize (start settings).run before = s at hn hs ⊢
  have hrefused {e : AuthError} (hv : verdict session result = .error e) :=
    admission_refused hs hn hw hr hv
  have hadmitted {info : SessionInfo} (hv : verdict session result = .ok info) :=
    admission_admitted hs hn hw hr hv
  refine ⟨fun a ha => ?_, fun e hv => ?_, fun e hv => (hrefused hv).2.2, actions_logIn hn hw,
    fun info hv => ?_, fun info hv m hm ref ha => ?_⟩
  · rw [← exists_and_left]
    simp only [← verdict_eq_ok]
    cases hv : verdict session result with
    | error e =>
      rw [(hrefused hv).1, List.mem_singleton] at ha
      subst ha
      simp
    | ok info =>
      rcases hadmitted hv with ⟨ref, hanswer⟩ | ⟨hanswer, -⟩
      · rw [hanswer, List.mem_singleton] at ha
        exact iff_of_true ⟨ref, ha⟩ ⟨info, rfl⟩
      · rw [hanswer] at ha
        cases ha
  · exact ⟨(hrefused hv).1, (hrefused hv).2.1⟩
  · rcases hadmitted hv with hanswer | ⟨-, hwaits⟩
    · exact Or.inl hanswer
    · exact Or.inr hwaits
  · obtain ⟨hnone, hp⟩ := progress_of_verdict hs hn hw hr hv
    rw [moments_loginWith, ← List.cons_append] at hm
    rcases List.mem_append.mp hm with hm | hm
    · have hmem := mem_loginAnswers hm ha
      rw [hnone] at hmem
      cases hmem
    · exact hp.shows m hm ref ha

/-- The directory knows nothing of the only edge of a session. -/
def unknownEdge : List Event := [.record (.call 0) (.ok []) false, .stored (.call 0)]

theorem admission_unknownEdge :
    Admission 0 (some "session") (.ok ⟨⟨userOne, "A"⟩, [⟨edgeOne, "owner"⟩]⟩)
        ((start {}).run [.lookUp 2 edgeTwo]) [.refresh 1 edgeOne] unknownEdge ∧
      loginAnswers 0 (((start {}).run [.lookUp 2 edgeTwo]).moments
        (loginWith 0 (some "session") [.refresh 1 edgeOne]
          (.ok ⟨⟨userOne, "A"⟩, [⟨edgeOne, "owner"⟩]⟩) ++ unknownEdge)) = [.ok 0] := by
  have hw : ∀ e ∈ [Event.refresh 1 edgeOne], e.ticket? ≠ some (.call 0) := by
    simp [Event.ticket?]
  have hr : ∀ e ∈ unknownEdge, e.call? ≠ some 0 := by
    simp [unknownEdge, Event.call?]
  exact ⟨admission_run rfl (some "session") _ hw hr, by decide +kernel⟩

end EdgeFleet.Service
