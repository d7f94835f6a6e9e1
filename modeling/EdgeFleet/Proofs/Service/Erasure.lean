import EdgeFleet.Proofs.Service.Advance
import EdgeFleet.Proofs.Service.Provenance

/-! A call that waits is nothing to the other tasks: their events come to the same with the call and
without, and once it is closed the service is as if it had never come. -/
namespace EdgeFleet.Service

/-- What has been done, without the task of a call. -/
def without (n : Nat) (r : Service × List Action) : Service × List Action := (r.1.close (.call n), r.2)

theorem close_comm (s : Service) (t other : Ticket) :
    (s.close t).close other = (s.close other).close t := by
  simp only [close, List.filter_filter, Bool.and_comm]

theorem close_await_self (s : Service) (t : Ticket) (task : Task) :
    (s.await t task).close t = s.close t := by
  simp [close, await, List.filter_filter]

section Others

variable (s : Service) (n : Nat) {t : Ticket} (ht : t ≠ .call n)

theorem finish_close (answer : Answer) :
    (s.close (.call n)).finish t answer = without n (s.finish t answer) := by
  rw [finish, close_comm]
  rfl

include ht

theorem await_close (task : Task) :
    (s.close (.call n)).await t task = (s.await t task).close (.call n) := by
  simp [close, await, List.filter_filter, Bool.and_comm, ht]

theorem startReading_close (id : EdgeId) (purpose : Purpose) :
    (s.close (.call n)).startReading t id purpose = without n (s.startReading t id purpose) := by
  rw [startReading, await_close s n ht]
  rfl

theorem resolveGrants_close (user : UserInfo) (granted : List (EdgeId × Role))
    (grants : List DeviceGrant) :
    (s.close (.call n)).resolveGrants t user granted grants =
      without n (s.resolveGrants t user granted grants) := by
  induction grants generalizing s granted with
  | nil => exact finish_close { s with cache := _ } n _
  | cons g rest ih =>
    have hcache : (s.close (.call n)).cache = s.cache := rfl
    simp only [resolveGrants, hcache]
    split
    · rename_i cache ref _
      exact ih (({ s with cache } : Service).keepFound g.id (some ref)) _
    · exact startReading_close { s with cache := _ } n ht _ _

theorem resume_close (found : Option EdgeRef) (purpose : Purpose) :
    (s.close (.call n)).resume t found purpose = without n (s.resume t found purpose) := by
  cases purpose with
  | answer => exact finish_close s n _
  | warmUp => exact finish_close { s with permits := s.permits + 1 } n _
  | login l =>
    cases found with
    | none => exact resolveGrants_close s n ht _ _ _
    | some ref => exact resolveGrants_close { s with cache := _ } n ht _ _ _

theorem install_close (ref : EdgeRef) (purpose : Purpose) :
    (s.close (.call n)).install t ref purpose = without n (s.install t ref purpose) := by
  have hinstance : (s.close (.call n)).instance? ref = s.instance? ref := rfl
  simp only [install, hinstance]
  split
  · exact resume_close s n ht _ _
  · exact resume_close { s with cache := _ } n ht _ _

theorem recordRead_close (id : EdgeId) (purpose : Purpose)
    (result : Except DirectoryError Directory.Record) (online : Bool) :
    (s.close (.call n)).recordRead t id purpose result online =
      without n (s.recordRead t id purpose result online) := by
  by_cases hf : Failed id result
  · rw [recordRead_of_failed _ _ _ hf, recordRead_of_failed _ _ _ hf, resume_close s n ht]
  · obtain ⟨reply, record, rfl, hr⟩ := exists_decodeFor hf
    simp only [recordRead, hr]
    by_cases h : online = true ∧ record.state = .inactive
    · rw [buildInstance_begun _ _ _ _ _ h, buildInstance_begun _ _ _ _ _ h]
      exact Prod.ext (await_close (s.withInstance record online) n ht _) rfl
    · rw [buildInstance_made _ _ _ _ _ h, buildInstance_made _ _ _ _ _ h]
      exact resume_close
        ((s.withInstance record online).withStore record.id s.instances.length) n ht _ _

theorem lookUp_close (id : EdgeId) :
    (s.close (.call n)).lookUp t id = without n (s.lookUp t id) := by
  have hcache : (s.close (.call n)).cache = s.cache := rfl
  simp only [lookUp, hcache]
  split
  · exact finish_close { s with cache := _ } n _
  · exact startReading_close { s with cache := _ } n ht _ _

theorem startLogin_close (session : Option String) :
    (s.close (.call n)).startLogin t session = without n (s.startLogin t session) := by
  unfold startLogin
  split
  · exact finish_close s n _
  · exact Prod.ext (await_close s n ht _) rfl

theorem sessionConfirmed_close (result : Except AuthError SessionInfo) :
    (s.close (.call n)).sessionConfirmed t result = without n (s.sessionConfirmed t result) := by
  cases result with
  | error e => exact finish_close s n _
  | ok info => exact resolveGrants_close s n ht _ _ _

theorem startSearch_close (apikey : String) :
    (s.close (.call n)).startSearch t apikey = without n (s.startSearch t apikey) := by
  unfold startSearch
  split
  · exact finish_close s n _
  · exact Prod.ext (await_close s n ht _) rfl

theorem updateInstance_close (ref : EdgeRef) (u : Edge.Update) :
    (s.close (.call n)).updateInstance t ref u = without n (s.updateInstance t ref u) := by
  have hinstance : (s.close (.call n)).instance? ref = s.instance? ref := rfl
  have hgenerations : (s.close (.call n)).generations = s.generations := rfl
  simp only [updateInstance, hinstance, hgenerations]
  split
  · exact finish_close s n _
  · rename_i i hi
    split
    · exact finish_close (s.withUpdate ref i u) n _
    · rename_i signal _
      exact finish_close
        ((s.withUpdate ref i u).stepWorker (.mark signal (i.edge.update u).1.id)).1 n _
    · split
      · exact finish_close (s.withUpdate ref i u) n _
      · exact Prod.ext (await_close (s.withUpdate ref i u) n ht _) rfl

end Others

theorem warmUp_close (s : Service) (n : Nat) (id : EdgeId) :
    (s.close (.call n)).warmUp id = without n (s.warmUp id) := by
  have hpermits : (s.close (.call n)).permits = s.permits := rfl
  simp only [warmUp, hpermits]
  split
  · rfl
  · rename_i permits _
    exact Prod.ext (await_close { s with permits, warmUps := s.warmUps + 1 } n Ticket.noConfusion _)
      rfl

theorem warmUpAll_close (s : Service) (n : Nat) (ids : List EdgeId) :
    (s.close (.call n)).warmUpAll ids = without n (s.warmUpAll ids) := by
  induction ids generalizing s with
  | nil => rfl
  | cons id rest ih =>
    simp only [warmUpAll, warmUp_close, without, ih]

theorem searchDone_close (s : Service) (n : Nat) {t : Ticket}
    (result : Except DirectoryError (List UInt32)) :
    (s.close (.call n)).searchDone t result = without n (s.searchDone t result) := by
  cases result with
  | error e => exact finish_close s n _
  | ok ids => simp only [searchDone, close_comm s (.call n) t, warmUpAll_close, without]

theorem whenFree_close (s : Service) {n m : Nat} (hm : Ticket.call m ≠ .call n)
    {call call' : Ticket → Service × List Action}
    (h : call' (.call m) = without n (call (.call m))) :
    (s.close (.call n)).whenFree m call' = without n (s.whenFree m call) := by
  simp only [whenFree, task?_close_of_ne s hm]
  split
  · rfl
  · exact h

/-- What is for another task comes to the same without the call. -/
theorem step_close (s : Service) {n : Nat} {e : Event} (he : e.ticket? ≠ some (.call n)) :
    (s.close (.call n)).step e = without n (s.step e) := by
  have hne {t : Ticket} (ht : e.ticket? = some t) : t ≠ .call n := by
    intro hc
    exact he (hc ▸ ht)
  -- what goes on is the same task, since only that of the call is missing
  cases e with
  | lookUp m id =>
    simp only [step]
    apply whenFree_close s (hne rfl)
    exact lookUp_close s n (hne rfl) id
  | refresh m id =>
    simp only [step]
    apply whenFree_close s (hne rfl)
    exact startReading_close s n (hne rfl) id .answer
  | logIn m session =>
    simp only [step]
    apply whenFree_close s (hne rfl)
    exact startLogin_close s n (hne rfl) session
  | resolve m apikey =>
    simp only [step]
    apply whenFree_close s (hne rfl)
    exact startSearch_close s n (hne rfl) apikey
  | findUser m id =>
    simp only [step]
    apply whenFree_close s (hne rfl)
    exact finish_close { s with cache := _ } n _
  | update m ref u =>
    simp only [step]
    apply whenFree_close s (hne rfl)
    exact updateInstance_close s n (hne rfl) ref u
  | drop m => exact Prod.ext (close_comm s (.call n) (.call m)) rfl
  | confirmed t result =>
    simp only [step, task?_close_of_ne s (hne rfl)]
    split
    · exact sessionConfirmed_close s n (hne rfl) result
    · rfl
  | searched t result =>
    simp only [step, task?_close_of_ne s (hne rfl)]
    split
    · exact searchDone_close s n result
    · rfl
  | turn t =>
    simp only [step, task?_close_of_ne s (hne rfl)]
    split
    · exact startReading_close s n (hne rfl) _ .warmUp
    · rfl
  | record t result online =>
    simp only [step, task?_close_of_ne s (hne rfl)]
    split
    · exact recordRead_close s n (hne rfl) _ _ result online
    · rfl
  | stored t =>
    simp only [step, task?_close_of_ne s (hne rfl)]
    split
    · exact install_close s n (hne rfl) _ _
    · exact finish_close s n _
    · rfl
  | worker we => rfl

/-- A run of the others comes to the same without the call, and they do the same all along. -/
theorem run_close (s : Service) {n : Nat} {es : List Event}
    (h : ∀ e ∈ es, e.ticket? ≠ some (.call n)) :
    (s.close (.call n)).run es = (s.run es).close (.call n) ∧
      ((s.close (.call n)).moments es).map Moment.actions =
        (s.moments es).map Moment.actions := by
  induction es generalizing s with
  | nil => exact ⟨rfl, rfl⟩
  | cons e rest ih =>
    have hstep := step_close s (h e List.mem_cons_self)
    obtain ⟨hrun, hactions⟩ := ih (s.step e).1 fun e' he => h e' (List.mem_cons_of_mem e he)
    have hstate : ((s.close (.call n)).step e).1 = (s.step e).1.close (.call n) := by
      rw [hstep]
      rfl
    refine ⟨?_, ?_⟩
    · rw [run, List.foldl_cons, hstate]
      exact hrun
    · simp only [moments, List.map_cons, Moment.actions, hstep, without, hactions]

/-- A call that has only waited leaves the service as if it had never come. -/
theorem run_await {s : Service} {n : Nat} (hn : s.task? (.call n) = none) (task : Task)
    {es : List Event} (h : ∀ e ∈ es, e.ticket? ≠ some (.call n)) :
    ((s.await (.call n) task).run es).close (.call n) = s.run es ∧
      ((s.await (.call n) task).moments es).map Moment.actions =
        (s.moments es).map Moment.actions := by
  have hc := run_close (s.await (.call n) task) h
  rw [close_await_self, close_of_task?_none hn] at hc
  exact ⟨hc.1.symm, hc.2.symm⟩

end EdgeFleet.Service
