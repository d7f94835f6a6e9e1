import EdgeFleet.Proofs.Service.Admission
import EdgeFleet.Proofs.Service.Inquiries

namespace EdgeFleet.Service

/-- A call that may look edges up. A login has its session and what the authenticator says of it. -/
inductive Query
  | lookUp (id : EdgeId)
  | refresh (id : EdgeId)
  | logIn (session : Option String) (result : Except AuthError SessionInfo)
  | findUser (id : UserId)

/-- A call that is made while no other is under way, and what the directory sends for its readings, in
their order. -/
structure Round where
  number : Nat
  query : Query
  readings : Nat → Reading

/-- The edges that a login asks for: those of its session, if that is there and confirmed. -/
def inquiriesOf (n : Nat) : Except AuthError SessionInfo → List Inquiry
  | .ok info => info.devices.map fun g => ⟨n, g.id, false⟩
  | .error _ => []

namespace Round

/-- The edges that a call asks for, in order. -/
def inquiries (r : Round) : List Inquiry :=
  match r.query with
  | .lookUp id => [⟨r.number, id, false⟩]
  | .refresh id => [⟨r.number, id, true⟩]
  | .logIn session result => inquiriesOf r.number (verdict session result)
  | .findUser _ => []

def opening (r : Round) : List Event :=
  match r.query with
  | .lookUp id => [.lookUp r.number id]
  | .refresh id => [.refresh r.number id]
  | .logIn session result => [.logIn r.number session, .confirmed (.call r.number) result]
  | .findUser id => [.findUser r.number id]

end Round

/-- A call from its start to its end. -/
def Round.events (r : Round) : List Event :=
  r.opening ++ answers r.number r.readings r.inquiries.length

/-- What comes of the inquiries of some calls, in the order of the calls. -/
def consultations (rounds : List Round) : List Consultation :=
  rounds.foldl (fun log r => log ++ consult log r.readings r.inquiries) []

section Round

variable {s : Service} {log : List Consultation}

theorem findings_of_call {e : Event} {n : Nat} (h : e.call? = some n) :
    Moment.findings ⟨s, e⟩ = (s.step e).2.filterMap Action.edge? := by
  have hl : lookups n ⟨s, e⟩ = [] := by cases e <;> first | (simp [lookups]; done) | cases h
  have ht : e.ticket? = some (.call n) := by cases e <;> cases h <;> rfl
  simp only [Moment.findings, Moment.actions, ht, hl, List.map_nil, List.append_nil]

theorem goes_resume_answer {n : Nat} (ho : Only n s) (hr : Remembers s log) (found : Option EdgeRef)
    (readings : Nat → Reading) (count : Nat) :
    Goes (s.resume (.call n) found .answer) (atHand s .answer) (answers n readings count) log [] := by
  have hgo := goes_idle (n := n) (s := s.close (.call n)) ho.close
    ⟨hr.unbounded, hr.cached, hr.counted⟩ readings count
  exact hgo.answered rfl

theorem goes_lookUp (hs : s.tasks = []) (hr : Remembers s log) (n : Nat) (id : EdgeId)
    (readings : Nat → Reading) :
    Goes (s, []) [] (.lookUp n id :: answers n readings 1) log
      (consult log readings [⟨n, id, false⟩]) := by
  have ho := only_of_idle hs n
  let s₁ : Service := { s with cache := { s.cache with edges := s.cache.edges.touch id } }
  have hr₁ : Remembers s₁ log := hr.of_used (Cache.Recent.used_touch s.cache.edges id) rfl
  have hfree : s.step (.lookUp n id) = s.lookUp (.call n) id := by
    rw [step, whenFree_of_free (task?_of_idle hs _)]
  apply Goes.step
  rw [findings_of_call rfl]
  cases hp : s.cache.edges.peek? id with
  | some ref =>
    have hlatest : latest? id log = some ref := (hr.cached id).symm.trans hp
    have hstep : s.step (.lookUp n id) = s₁.resume (.call n) (some ref) .answer := by
      simp only [hfree, lookUp, Cache.getEdge, Cache.Recent.get, hp, s₁]
      rfl
    rw [hstep, consult_cons_of_latest? rfl hlatest]
    have hgo := goes_resume_answer (s := s₁) ho (hr₁.served (q := ⟨n, id, false⟩) hlatest) (some ref)
      readings 1
    exact hgo.served rfl hr₁.cached
  | none =>
    have hlatest : latest? id log = none := (hr.cached id).symm.trans hp
    have hstep : s.step (.lookUp n id) = s₁.startReading (.call n) id .answer := by
      simp only [hfree, lookUp, Cache.getEdge, Cache.Recent.get, hp, s₁]
    rw [hstep, consult_cons_of_read (Or.inr hlatest) rfl, answers_succ]
    exact goes_startReading (q := ⟨n, id, false⟩) (s := s₁) (by trivial) (fun l hl => by cases hl)
      ho hr₁ rfl fun s' ho' hr' => goes_resume_answer ho' hr' _ _ 0

theorem goes_refresh (hs : s.tasks = []) (hr : Remembers s log) (n : Nat) (id : EdgeId)
    (readings : Nat → Reading) :
    Goes (s, []) [] (.refresh n id :: answers n readings 1) log
      (consult log readings [⟨n, id, true⟩]) := by
  have hstep : s.step (.refresh n id) = s.startReading (.call n) id .answer := by
    rw [step, whenFree_of_free (task?_of_idle hs _)]
  apply Goes.step
  rw [findings_of_call rfl, hstep, consult_cons_of_read (Or.inl rfl) rfl,
    answers_succ]
  exact goes_startReading (q := ⟨n, id, true⟩) (by trivial) (fun l hl => by cases hl)
    (only_of_idle hs n) hr rfl fun s' ho' hr' => goes_resume_answer ho' hr' _ _ 0

theorem goes_findUser (hs : s.tasks = []) (hr : Remembers s log) (n : Nat) (id : UserId)
    (readings : Nat → Reading) : Goes (s, []) [] (.findUser n id :: answers n readings 0) log [] := by
  have hstep : s.step (.findUser n id) = s.findUser (.call n) id := by
    rw [step, whenFree_of_free (task?_of_idle hs _)]
  have hgo := goes_idle (n := n) (s := (s.findUser (.call n) id).1) (only_of_idle hs n).close
    ⟨hr.unbounded, hr.cached, hr.counted⟩ readings 0
  apply Goes.step
  rw [findings_of_call rfl, hstep]
  exact hgo.answered rfl

theorem goes_denied (hs : s.tasks = []) (hr : Remembers s log) (n : Nat) (e : AuthError)
    (readings : Nat → Reading) :
    Goes (s.await (.call n) .confirming, []) []
      (.confirmed (.call n) (.error e) :: answers n readings 0) log [] := by
  have ho := (only_of_idle hs n).await .confirming
  have ht := task?_await_self s (.call n) .confirming
  have hstep : (s.await (.call n) .confirming).step (.confirmed (.call n) (.error e)) =
      (s.await (.call n) .confirming).finish (.call n) (.login (.error (.auth e))) := by
    simp only [step, ht, sessionConfirmed]
  have hgo := goes_idle (n := n) (s := (s.await (.call n) .confirming).close (.call n)) ho.close
    ⟨hr.unbounded, hr.cached, hr.counted⟩ readings 0
  apply Goes.step
  rw [hstep]
  have hnone : Moment.findings ⟨s.await (.call n) .confirming, .confirmed (.call n) (.error e)⟩ = [] := by
    simp [Moment.findings, Moment.actions, hstep, finish, Action.edge?, lookups, Event.ticket?]
  rw [hnone]
  exact hgo.answered rfl

theorem goes_confirmed (hs : s.tasks = []) (hr : Remembers s log) (n : Nat) (info : SessionInfo)
    (readings : Nat → Reading) :
    Goes (s.await (.call n) .confirming, []) []
      (.confirmed (.call n) (.ok info) :: answers n readings (inquiriesOf n (.ok info)).length) log
      (consult log readings (inquiriesOf n (.ok info))) := by
  have ho := (only_of_idle hs n).await .confirming
  have hr' : Remembers (s.await (.call n) .confirming) log := ⟨hr.unbounded, hr.cached, hr.counted⟩
  have ht := task?_await_self s (.call n) .confirming
  have hstep : (s.await (.call n) .confirming).step (.confirmed (.call n) (.ok info)) =
      (s.await (.call n) .confirming).resolveGrants (.call n) info.user [] info.devices := by
    simp only [step, ht, sessionConfirmed]
  have hcount : info.devices.length ≤ (inquiriesOf n (.ok info)).length := by simp [inquiriesOf]
  have hgo := goes_resolveGrants ho hr' info.user [] info.devices readings hcount
  have hnone := (resolveGrants_waits (s.await (.call n) .confirming) (.call n) info.user []
    info.devices).2
  apply Goes.step
  have hfindings : Moment.findings ⟨s.await (.call n) .confirming, .confirmed (.call n) (.ok info)⟩ =
      (served (s.await (.call n) .confirming).cache.edges info.devices).map (·.found) := by
    simp only [Moment.findings, Moment.actions, hstep, hnone, lookups, Event.ticket?, ht]
    rfl
  rw [hfindings, hstep]
  exact hgo

theorem goes_logIn (hs : s.tasks = []) (hr : Remembers s log) (n : Nat) (session : Option String)
    (result : Except AuthError SessionInfo) (readings : Nat → Reading) :
    Goes (s, []) []
      (.logIn n session :: .confirmed (.call n) result ::
        answers n readings (inquiriesOf n (verdict session result)).length) log
      (consult log readings (inquiriesOf n (verdict session result))) := by
  have hfree := task?_of_idle hs (.call n)
  apply Goes.step
  rw [findings_of_call rfl]
  rcases verdict_of_filter session result with ⟨hf, -, hv⟩ | ⟨text, hf, -, hv⟩
  · rw [hv, step_logIn_missing hfree hf]
    have hpassed : s.step (.confirmed (.call n) result) = (s, []) := by simp only [step, hfree]
    have hnone : Moment.findings ⟨s, .confirmed (.call n) result⟩ = [] := by
      simp [Moment.findings, Moment.actions, hpassed, lookups, Event.ticket?, hfree]
    have hgo : Goes (s, []) [] (.confirmed (.call n) result :: answers n readings 0) log [] := by
      apply Goes.step
      rw [hpassed, hnone]
      exact goes_idle hs hr readings 0
    exact hgo.answered rfl
  · rw [hv, step_logIn_present hfree hf]
    cases result with
    | error e => exact (goes_denied hs hr n e readings).answered rfl
    | ok info => exact (goes_confirmed hs hr n info readings).answered rfl

theorem goes_round (hs : s.tasks = []) (hr : Remembers s log) (r : Round) :
    Goes (s, []) [] r.events log (consult log r.readings r.inquiries) := by
  obtain ⟨n, query, readings⟩ := r
  cases query with
  | lookUp id => exact goes_lookUp hs hr n id readings
  | refresh id => exact goes_refresh hs hr n id readings
  | logIn session result => exact goes_logIn hs hr n session result readings
  | findUser id => exact goes_findUser hs hr n id readings

end Round

section Run

variable {settings : Settings} (rounds : List Round)

theorem consultations_concat (r : Round) :
    consultations (rounds ++ [r]) =
      consultations rounds ++ consult (consultations rounds) r.readings r.inquiries := by
  rw [consultations, List.foldl_append]
  rfl

/-- By induction on the calls: the last one starts from what the others left. -/
theorem goes_rounds (h : settings.edgeCapacity = none) :
    Goes (start settings, []) [] (rounds.flatMap Round.events) [] (consultations rounds) := by
  induction rounds using List.reverseRecOn with
  | nil =>
    refine ⟨rfl, rfl, fun past c later he => ?_, rfl, h, fun id => rfl, rfl⟩
    cases past <;> cases he
  | append_singleton rounds r ih =>
    have hgo := ih.append (goes_round ih.idle ih.after r)
    rw [List.flatMap_append, consultations_concat]
    simpa using hgo

theorem consistent_consultations : Consistent (consultations rounds) := by
  induction rounds using List.reverseRecOn with
  | nil =>
    intro past c later he
    cases past <;> cases he
  | append_singleton rounds r ih =>
    rw [consultations_concat]
    exact ih.consult _ _

theorem map_inquiry_consultations :
    (consultations rounds).map (·.inquiry) = rounds.flatMap Round.inquiries := by
  induction rounds using List.reverseRecOn with
  | nil => rfl
  | append_singleton rounds r ih =>
    rw [consultations_concat, List.map_append, ih, map_inquiry_consult, List.flatMap_append]
    simp

end Run

section Reads

/-- The edges that the directory is asked to read. -/
def readsOf (ms : List Moment) : List EdgeId := (requests ms).filterMap Action.read?

theorem reads_of_asks (log : List Consultation) :
    (log.flatMap Consultation.asks).filterMap Action.read? =
      (log.filter (·.reading.isSome)).map (·.inquiry.id) := by
  induction log with
  | nil => rfl
  | cons c log ih =>
    have hc : c.asks.filterMap Action.read? =
        if c.reading.isSome then [c.inquiry.id] else [] := by
      rw [Consultation.asks]
      cases c.reading with
      | none => rfl
      | some p =>
        simp only [List.filterMap_cons, Action.read?, Option.isSome_some, if_true]
        split
        · rfl
        · split <;> rfl
    rw [List.flatMap_cons, List.filterMap_append, ih, hc, List.filter_cons]
    cases c.reading <;> rfl

end Reads

/-- What comes of calls that are made one after the other, whatever the directory sends. -/
structure ReadThrough (settings : Settings) (rounds : List Round) : Prop where
  /-- The inquiries are those of the calls, in order. -/
  inquiries : (consultations rounds).map (·.inquiry) = rounds.flatMap Round.inquiries
  /-- The edges of those with a reading are read, in order, and only activations are stored besides. -/
  reads : readsOf ((start settings).moments (rounds.flatMap Round.events)) =
    ((consultations rounds).filter (·.reading.isSome)).map (·.inquiry.id)
  asks : requests ((start settings).moments (rounds.flatMap Round.events)) =
    (consultations rounds).flatMap Consultation.asks
  finds : findings ((start settings).moments (rounds.flatMap Round.events)) =
    (consultations rounds).map (·.found)
  /-- An inquiry has a reading exactly if it is a refresh, or its edge is not at hand at that moment. -/
  misses : ∀ past c later, consultations rounds = past ++ c :: later →
    ∃ front, front <+: rounds.flatMap Round.events ∧
      (∀ id, ((start settings).run front).cache.edges.peek? id = latest? id past) ∧
      (c.reading.isSome = true → requests ((start settings).moments front) =
        past.flatMap Consultation.asks ++ [.read (.call c.inquiry.number) c.inquiry.id]) ∧
      (c.reading.isSome = true ↔ c.inquiry.anew = true ∨
        ((start settings).run front).cache.edges.peek? c.inquiry.id = none)
  /-- It finds nothing exactly if its reading brings no record of the edge. -/
  fails : ∀ c ∈ consultations rounds,
    c.found = none ↔ ∃ p, c.reading = some p ∧ Failed c.inquiry.id p.result
  /-- What was found is found again, without a reading, until the edge is refreshed. -/
  keeps : ∀ past c mid d later ref, consultations rounds = past ++ c :: mid ++ d :: later →
    c.found = some ref → d.inquiry.id = c.inquiry.id → d.inquiry.anew = false →
    (∀ e ∈ mid, e.inquiry.id = c.inquiry.id → e.inquiry.anew = true → e.found = none) →
      d.reading = none ∧ d.found = some ref
  /-- What a look-up did not find is read again. -/
  retries : ∀ past c mid d later, consultations rounds = past ++ c :: mid ++ d :: later →
    c.inquiry.anew = false → c.found = none → d.inquiry.id = c.inquiry.id →
    (∀ e ∈ mid, e.inquiry.id = c.inquiry.id → e.found = none) → d.reading.isSome = true
  /-- In the end no call is under way, and the latest instances are at hand. -/
  idle : ((start settings).run (rounds.flatMap Round.events)).tasks = []
  cached : ∀ id, ((start settings).run (rounds.flatMap Round.events)).cache.edges.peek? id =
    latest? id (consultations rounds)

/-- Look-ups read through exactly if the edge is not at hand. -/
theorem read_through {settings : Settings} (h : settings.edgeCapacity = none) (rounds : List Round) :
    ReadThrough settings rounds where
  inquiries := map_inquiry_consultations rounds
  reads := by
    have hasks : requests ((start settings).moments (rounds.flatMap Round.events)) =
        (consultations rounds).flatMap Consultation.asks := (goes_rounds rounds h).asks
    rw [readsOf, hasks, reads_of_asks]
  asks := (goes_rounds rounds h).asks
  finds := (goes_rounds rounds h).finds
  misses past c later he := by
    obtain ⟨front, hfront, hpeek, hread⟩ := (goes_rounds rounds h).seen past c later he
    refine ⟨front, hfront, hpeek, hread, ?_⟩
    have hcached : ((start settings).run front).cache.edges.peek? c.inquiry.id =
        latest? c.inquiry.id past := hpeek c.inquiry.id
    rw [hcached]
    exact (consistent_consultations rounds past c later he).isSome_reading_iff
  fails c hc := by
    obtain ⟨past, later, he⟩ := List.append_of_mem hc
    exact (consistent_consultations rounds past c later he).found_eq_none_iff
  keeps past c mid d later ref he hc hid hd hm :=
    (consistent_consultations rounds).kept he hc hid hd hm
  retries past c mid d later he ha hc hid hm :=
    (consistent_consultations rounds).again he ha hc hid hm
  idle := (goes_rounds rounds h).idle
  cached := (goes_rounds rounds h).after.cached

/-- The directory fails first, then sends an edge that is inactive, then another one. -/
def unsteady : Nat → Reading
  | 0 => ⟨.error (.transport "read timed out"), true⟩
  | 1 => ⟨.ok (recordOf edgeOne .inactive), true⟩
  | _ => ⟨.ok (recordOf edgeTwo .active), false⟩

/-- A login that grants an edge twice, and calls for its edges. -/
def repeated : List Round := [
  ⟨0, .logIn (some "session") (.ok ⟨⟨userOne, "A"⟩,
    [⟨edgeOne, "owner"⟩, ⟨edgeOne, "guest"⟩, ⟨edgeTwo, "guest"⟩, ⟨edgeOne, "guest"⟩]⟩), unsteady⟩,
  ⟨1, .lookUp edgeTwo, unsteady⟩,
  ⟨2, .refresh edgeTwo, unsteady⟩,
  ⟨3, .findUser userOne, unsteady⟩,
  ⟨4, .lookUp edgeTwo, unsteady⟩,
  ⟨5, .refresh edgeTwo, fun k => unsteady (k + 2)⟩,
  ⟨6, .lookUp edgeTwo, unsteady⟩]

theorem read_through_repeated :
    ReadThrough {} repeated ∧
      readsOf ((start {}).moments (repeated.flatMap Round.events)) =
        [edgeOne, edgeOne, edgeTwo, edgeTwo, edgeTwo] ∧
      findings ((start {}).moments (repeated.flatMap Round.events)) =
        [none, some 0, some 1, some 0, some 1, none, some 1, some 2, some 2] :=
  ⟨read_through rfl repeated, by decide +kernel, by decide +kernel⟩

end EdgeFleet.Service
