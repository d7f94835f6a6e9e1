import EdgeFleet.Proofs.Service.Consult
import EdgeFleet.Proofs.Service.Provenance

/-! How the service goes through the edges that one call asks for, if no other call is under way and the
cache has no bound. -/
namespace EdgeFleet.Service

/-- What the directory sends for so many readings of a call, each with the end of a write that it may
lead to. What the call does not wait for is passed over. -/
def answers (n : Nat) (readings : Nat → Reading) (count : Nat) : List Event :=
  (List.range count).flatMap fun k =>
    [.record (.call n) (readings k).result (readings k).online, .stored (.call n)]

/-- Whether an action asks something of the directory. -/
def Action.asks : Action → Bool
  | .search .. | .read .. | .write .. | .writeBatch .. => true
  | .confirm .. | .queue _ | .finish .. => false

def Action.read? : Action → Option EdgeId
  | .read _ id => some id
  | _ => none

/-- What an action answers a call with that asks for one edge. -/
def Action.edge? : Action → Option (Option EdgeRef)
  | .finish (.call _) (.edge found) => some found
  | _ => none

/-- All that is asked of the directory. -/
def requests (ms : List Moment) : List Action := ms.flatMap fun m => m.actions.filter Action.asks

/-- What is found in a moment: what calls that ask for one edge are answered with, and what the login of
the event looks up. -/
def Moment.findings (m : Moment) : List (Option EdgeRef) :=
  m.actions.filterMap Action.edge? ++
    match m.event.ticket? with
    | some (.call n) => (lookups n m).map (·.found)
    | _ => []

/-- All that is found. -/
def findings (ms : List Moment) : List (Option EdgeRef) := ms.flatMap Moment.findings

/-- What is asked of the directory for an inquiry: nothing unless there is a reading, and after the
reading that the edge is active now, if it is connected for the first time. -/
def Consultation.asks (c : Consultation) : List Action :=
  match c.reading with
  | none => []
  | some p =>
    .read (.call c.inquiry.number) c.inquiry.id ::
      match p.record? c.inquiry.id with
      | none => []
      | some record =>
        if p.online = true ∧ record.state = .inactive then
          [.write (.call c.inquiry.number) c.inquiry.id .state (.text EdgeState.active.name)]
        else []

/-- The service has made the instances of a log and has the latest of each edge at hand. -/
structure Remembers (s : Service) (log : List Consultation) : Prop where
  unbounded : s.cache.edges.capacity = none
  cached : ∀ id, s.cache.edges.peek? id = latest? id log
  counted : s.instances.length = renewals log

/-- No call but one is under way. -/
def Only (n : Nat) (s : Service) : Prop := ∀ p ∈ s.tasks, p.1 = .call n

/-- From the end of a step on, given what was found in it, some events bring just what some inquiries
come to after a log: they ask of the directory and find what they should, at each inquiry there is a
moment at which the latest instances are at hand, and in the end no call is under way. -/
structure Goes (r : Service × List Action) (heard : List (Option EdgeRef)) (es : List Event)
    (log new : List Consultation) : Prop where
  asks : r.2.filter Action.asks ++ requests (r.1.moments es) = new.flatMap Consultation.asks
  finds : heard ++ findings (r.1.moments es) = new.map (·.found)
  /-- When an inquiry has its reading, that is the last thing that was asked. -/
  seen : ∀ past c later, new = past ++ c :: later → ∃ front, front <+: es ∧
    (∀ id, (r.1.run front).cache.edges.peek? id = latest? id (log ++ past)) ∧
    (c.reading.isSome = true → r.2.filter Action.asks ++ requests (r.1.moments front) =
      past.flatMap Consultation.asks ++ [.read (.call c.inquiry.number) c.inquiry.id])
  idle : (r.1.run es).tasks = []
  after : Remembers (r.1.run es) (log ++ new)

section Remembers

variable {s : Service} {log : List Consultation} {n : Nat}

theorem Remembers.of_used (h : Remembers s log) {s' : Service}
    (hu : Cache.Recent.Used s.cache.edges s'.cache.edges) (hi : s'.instances = s.instances) :
    Remembers s' log where
  unbounded := hu.capacity_eq.trans h.unbounded
  cached id := (hu.peek?_eq id).trans (h.cached id)
  counted := by rw [hi, h.counted]

theorem Only.close (h : Only n s) : (s.close (.call n)).tasks = [] := by
  apply List.filter_eq_nil_iff.mpr
  intro p hp
  simp [h p hp]

theorem Only.await (h : Only n s) (task : Task) : Only n (s.await (.call n) task) := by
  intro p hp
  rcases List.mem_cons.mp hp with rfl | hp
  · rfl
  · exact h p (List.mem_filter.mp hp).1

theorem task?_of_idle (h : s.tasks = []) (t : Ticket) : s.task? t = none := by
  simp [task?, h]

theorem only_of_idle (h : s.tasks = []) (n : Nat) : Only n s := by
  intro p hp
  rw [h] at hp
  cases hp

end Remembers

section Goes

variable {s : Service} {n : Nat} {r : Service × List Action} {heard : List (Option EdgeRef)}
  {es more : List Event} {log new new' : List Consultation}

theorem requests_append (ms more : List Moment) :
    requests (ms ++ more) = requests ms ++ requests more := List.flatMap_append

theorem findings_append (ms more : List Moment) :
    findings (ms ++ more) = findings ms ++ findings more := List.flatMap_append

theorem Goes.step {e : Event} (h : Goes (s.step e) (Moment.findings ⟨s, e⟩) es log new) :
    Goes (s, []) [] (e :: es) log new where
  asks := h.asks
  finds := h.finds
  seen past c later he := by
    obtain ⟨front, hfront, hpeek, hread⟩ := h.seen past c later he
    exact ⟨e :: front, List.cons_prefix_cons.mpr ⟨rfl, hfront⟩, hpeek, hread⟩
  idle := h.idle
  after := h.after

theorem Goes.seen_later (h : Goes (s, []) [] es log new)
    (h' : Goes (s.run es, []) [] more (log ++ new) new') {past later : List Consultation}
    {c : Consultation} (he : new' = past ++ c :: later) : ∃ front, front <+: es ++ more ∧
      (∀ id, (s.run front).cache.edges.peek? id = latest? id (log ++ (new ++ past))) ∧
      (c.reading.isSome = true → requests (s.moments front) = (new ++ past).flatMap Consultation.asks ++
        [.read (.call c.inquiry.number) c.inquiry.id]) := by
  obtain ⟨front, hfront, hpeek, hread⟩ := h'.seen past c later he
  refine ⟨es ++ front, (List.prefix_append_right_inj es).mpr hfront, fun id => ?_, fun hc => ?_⟩
  · rw [run_append, ← List.append_assoc]
    exact hpeek id
  · have hfirst : requests (s.moments es) = new.flatMap Consultation.asks := h.asks
    have hnext := hread hc
    simp only [List.filter_nil, List.nil_append] at hnext
    rw [moments_append, requests_append, hfirst, hnext, List.flatMap_append, List.append_assoc]

theorem Goes.append (h : Goes (s, []) [] es log new)
    (h' : Goes (s.run es, []) [] more (log ++ new) new') :
    Goes (s, []) [] (es ++ more) log (new ++ new') where
  asks := by
    have h1 := h.asks
    have h2 := h'.asks
    simp only [List.filter_nil, List.nil_append] at h1 h2 ⊢
    rw [moments_append, requests_append, h1, h2, List.flatMap_append]
  finds := by
    have h1 := h.finds
    have h2 := h'.finds
    simp only [List.nil_append] at h1 h2 ⊢
    rw [moments_append, findings_append, h1, h2, List.map_append]
  seen past c later he := by
    rcases List.append_eq_append_iff.mp he with ⟨as, hpast, hnew⟩ | ⟨cs, hnew, hrest⟩
    · rw [hpast]
      exact h.seen_later h' hnew
    · cases cs with
      | nil =>
        rw [List.append_nil] at hnew
        rw [← hnew, ← List.append_nil new]
        exact h.seen_later h' hrest.symm
      | cons d cs =>
        obtain ⟨rfl, -⟩ := List.cons.inj hrest
        obtain ⟨front, hfront, hpeek, hread⟩ := h.seen past c cs hnew
        exact ⟨front, hfront.trans (List.prefix_append es more), hpeek, hread⟩
  idle := by
    rw [run_append]
    exact h'.idle
  after := by
    rw [run_append, ← List.append_assoc]
    exact h'.after

theorem asks_of_reading_none {c : Consultation} (h : c.reading = none) : c.asks = [] := by
  rw [Consultation.asks, h]

theorem Goes.served {c : Consultation} (h : Goes r heard es (log ++ [c]) new) (hc : c.reading = none)
    (hpeek : ∀ id, r.1.cache.edges.peek? id = latest? id log) :
    Goes r (c.found :: heard) es log (c :: new) where
  asks := by rw [h.asks, List.flatMap_cons, asks_of_reading_none hc, List.nil_append]
  finds := by rw [List.cons_append, h.finds, List.map_cons]
  seen past d later he := by
    cases past with
    | nil =>
      obtain ⟨rfl, -⟩ := List.cons.inj he
      refine ⟨[], List.nil_prefix, fun id => ?_, fun hread => ?_⟩
      · rw [List.append_nil]
        exact hpeek id
      · rw [hc] at hread
        cases hread
    | cons c' past =>
      obtain ⟨rfl, hrest⟩ := List.cons.inj he
      rw [List.append_cons, List.flatMap_cons, asks_of_reading_none hc, List.nil_append]
      exact h.seen past d later hrest
  idle := h.idle
  after := by
    rw [List.append_cons]
    exact h.after

theorem moments_two (s : Service) (e e' : Event) (es : List Event) :
    s.moments (e :: e' :: es) = s.moments [e, e'] ++ ((s.step e).1.step e').1.moments es := rfl

/-- An inquiry for which there is a reading takes two events: what it asks and what it finds comes of both,
and in the end it has added itself. -/
theorem Goes.read {c : Consultation} {e e' : Event} (h : Goes r heard es (log ++ [c]) new)
    (hpeek : ∀ id, s.cache.edges.peek? id = latest? id log)
    (hrun : ((s.step e).1.step e').1 = r.1)
    (hasked : .read (.call c.inquiry.number) c.inquiry.id :: requests (s.moments [e, e']) =
      c.asks ++ r.2.filter Action.asks)
    (hfindings : findings (s.moments [e, e']) = c.found :: heard) :
    Goes (s, [.read (.call c.inquiry.number) c.inquiry.id]) [] (e :: e' :: es) log (c :: new) where
  asks := by
    rw [moments_two, hrun, requests_append, ← List.append_assoc]
    refine (congrArg (· ++ requests (r.1.moments es)) hasked).trans ?_
    rw [List.append_assoc, h.asks, List.flatMap_cons]
  finds := by
    rw [moments_two, hrun, findings_append, hfindings, List.nil_append, List.cons_append, h.finds,
      List.map_cons]
  seen past d later he := by
    cases past with
    | nil =>
      obtain ⟨rfl, -⟩ := List.cons.inj he
      refine ⟨[], List.nil_prefix, fun id => ?_, fun _ => rfl⟩
      rw [List.append_nil]
      exact hpeek id
    | cons c' past =>
      obtain ⟨rfl, hrest⟩ := List.cons.inj he
      obtain ⟨front, hfront, hpeek, hread⟩ := h.seen past d later hrest
      refine ⟨e :: e' :: front, by simpa using hfront, fun id => ?_, fun hd => ?_⟩
      · rw [List.append_cons, ← hpeek id, ← hrun]
        rfl
      · rw [moments_two, hrun, requests_append, ← List.append_assoc]
        refine (congrArg (· ++ requests (r.1.moments front)) hasked).trans ?_
        rw [List.append_assoc, hread hd, List.flatMap_cons, List.append_assoc]
  idle := by
    have h1 := h.idle
    rw [← hrun] at h1
    exact h1
  after := by
    have h1 := h.after
    rw [← hrun] at h1
    rw [List.append_cons]
    exact h1

end Goes

section Idle

variable {s : Service} {n : Nat}

theorem answers_succ (n : Nat) (readings : Nat → Reading) (count : Nat) :
    answers n readings (count + 1) =
      .record (.call n) (readings 0).result (readings 0).online :: .stored (.call n) ::
        answers n (fun k => readings (k + 1)) count := by
  simp [answers, List.range_succ_eq_map, List.flatMap_map]

theorem findings_eq_nil {e : Event} {m : Nat} (he : e.ticket? = some (.call m))
    (ha : (s.step e).2 = []) (hl : lookups m ⟨s, e⟩ = []) : Moment.findings ⟨s, e⟩ = [] := by
  simp only [Moment.findings, Moment.actions, ha, he, hl]
  rfl

theorem step_stored_passed (h : s.task? (.call n) = none ∨
    ∃ id purpose, s.task? (.call n) = some (.reading id purpose)) :
    s.step (.stored (.call n)) = (s, []) ∧ Moment.findings ⟨s, .stored (.call n)⟩ = [] := by
  have hs : s.step (.stored (.call n)) = (s, []) := by
    rcases h with h | ⟨id, purpose, h⟩ <;> simp only [step, h]
  refine ⟨hs, findings_eq_nil rfl (by rw [hs]) ?_⟩
  rcases h with h | ⟨id, purpose, h⟩ <;> simp [lookups, h]

theorem step_record_passed (h : s.task? (.call n) = none)
    (result : Except DirectoryError Directory.Record) (online : Bool) :
    s.step (.record (.call n) result online) = (s, []) ∧
      Moment.findings ⟨s, .record (.call n) result online⟩ = [] := by
  have hs := step_record_of_task?_none h result online
  exact ⟨hs, findings_eq_nil rfl (by rw [hs]) (by simp [lookups, h])⟩

/-- When a call has ended, what still comes for it changes nothing. -/
theorem goes_idle {log : List Consultation} (hs : s.tasks = []) (hr : Remembers s log)
    (readings : Nat → Reading) (count : Nat) : Goes (s, []) [] (answers n readings count) log [] := by
  have ht := task?_of_idle hs (.call n)
  induction count generalizing readings with
  | zero =>
    refine ⟨rfl, rfl, fun past c later he => ?_, hs, ?_⟩
    · cases past <;> cases he
    · rw [List.append_nil]
      exact hr
  | succ count ih =>
    obtain ⟨hrecord, hrecord'⟩ := step_record_passed ht (readings 0).result (readings 0).online
    obtain ⟨hstored, hstored'⟩ := step_stored_passed (Or.inl ht)
    have h := ih fun k => readings (k + 1)
    rw [answers_succ]
    apply Goes.step
    rw [hrecord, hrecord']
    apply Goes.step
    rw [hstored, hstored']
    exact h

end Idle

section Reading

variable {s s' : Service} {n : Nat} {log : List Consultation} {q : Inquiry} {p : Reading}

theorem Remembers.failed (h : Remembers s log) (q : Inquiry) (p : Reading) :
    Remembers s (log ++ [⟨q, some p, none⟩]) where
  unbounded := h.unbounded
  cached id := by
    rw [h.cached, latest?_concat, Consultation.found?]
    simp
  counted := by
    rw [h.counted, renewals_concat]
    rfl

/-- A reading that brings an edge makes its instance, which is at hand from then on. -/
theorem Remembers.renewed (h : Remembers s log) {record : EdgeRecord} (hid : record.id = q.id)
    (p : Reading) :
    Remembers ((s.withInstance record p.online).withStore record.id s.instances.length)
      (log ++ [⟨q, some p, some (renewals log)⟩]) where
  unbounded := h.unbounded
  cached id := by
    change (s.cache.edges.put record.id s.instances.length).peek? id = _
    rw [hid, h.counted]
    by_cases hq : q.id = id
    · rw [latest?_concat_self hq, ← hq, Cache.Recent.peek?_put_self]
      rfl
    · rw [latest?_concat_of_ne hq, ← h.cached id]
      exact Cache.Recent.peek?_put_of_ne _ h.unbounded (fun he => hq he.symm) _
  counted := by
    change (s.instances ++ [s.instanceOf record p.online]).length = _
    rw [List.length_append, h.counted, renewals_concat]
    rfl

/-- What a call has already found when it goes on: a login looks up the edges that are at hand. -/
def atHand (s : Service) : Purpose → List (Option EdgeRef)
  | .login l => (served s.cache.edges l.remaining).map (·.found)
  | .answer | .warmUp => []

/-- What a login notes when the edge that it waits for is found or not. -/
def noted (s : Service) (id : EdgeId) (found : Option EdgeRef) : Purpose → List Lookup
  | .login l => ⟨id, found⟩ :: served s.cache.edges l.remaining
  | .answer | .warmUp => []

theorem resolveGrants_waits (s : Service) (t : Ticket) (user : UserInfo)
    (granted : List (EdgeId × Role)) (grants : List DeviceGrant) :
    ((s.resolveGrants t user granted grants).1.task? t = none ∨
      ∃ id purpose, (s.resolveGrants t user granted grants).1.task? t = some (.reading id purpose)) ∧
    (s.resolveGrants t user granted grants).2.filterMap Action.edge? = [] := by
  have hr := resolved_resolveGrants s t user granted grants
  generalize s.resolveGrants t user granted grants = r at hr ⊢
  cases hr with
  | all edges used there goes =>
    subst goes
    exact ⟨Or.inl (task?_close_self _ _), by cases t <;> rfl⟩
  | upTo edges used front g rest split there absent goes =>
    subst goes
    exact ⟨Or.inr ⟨_, _, task?_await_self _ _ _⟩, rfl⟩

theorem resume_waits (s : Service) (t : Ticket) (found : Option EdgeRef) (purpose : Purpose) :
    (s.resume t found purpose).1.task? t = none ∨
      ∃ id purpose', (s.resume t found purpose).1.task? t = some (.reading id purpose') := by
  cases purpose with
  | answer => exact Or.inl (task?_close_self _ _)
  | warmUp => exact Or.inl (task?_close_self _ _)
  | login l => exact (resolveGrants_waits _ t l.user _ l.remaining).1

/-- When a call goes on with what was read for it, that is found. -/
theorem findings_resume {purpose : Purpose} (hp : purpose.Suits (.call n)) {e : Event}
    (he : e.ticket? = some (.call n)) {id : EdgeId} {found : Option EdgeRef}
    (hs : s.step e = s'.resume (.call n) found purpose)
    (hl : lookups n ⟨s, e⟩ = noted s' id found purpose) :
    Moment.findings ⟨s, e⟩ = found :: atHand s' purpose := by
  simp only [Moment.findings, Moment.actions, hs, he, hl]
  cases purpose with
  | warmUp => exact hp.elim
  | answer => rfl
  | login l =>
    have hnone := (resolveGrants_waits (s'.keepFound l.current.id found) (.call n) l.user
      (l.granted ++ [(l.current.id, Role.ofText l.current.role)]) l.remaining).2
    rw [resume, hnone]
    rfl

section Lookups

variable {id : EdgeId} {purpose : Purpose} {result : Except DirectoryError Directory.Record}
  {reply : Directory.Record} {record : EdgeRecord} {online : Bool}
  (hl : ∀ l, purpose = .login l → id = l.current.id)

include hl

theorem lookups_failed (ht : s.task? (.call n) = some (.reading id purpose)) (hf : Failed id result) :
    lookups n ⟨s, .record (.call n) result online⟩ = noted s id none purpose := by
  cases purpose with
  | answer => simp [lookups, ht, noted]
  | warmUp => simp [lookups, ht, noted]
  | login l =>
    have hid := hl l rfl
    rw [(found_failed hid ht hf).noted, stored?_of_failed ht hf online, ← hid]
    rfl

theorem lookups_made (hid : record.id = id) (ht : s.task? (.call n) = some (.reading id purpose))
    (hr : EdgeRecord.decodeFor id reply = .ok record)
    (h : ¬ (online = true ∧ record.state = .inactive)) :
    lookups n ⟨s, .record (.call n) (.ok reply) online⟩ =
      noted ((s.withInstance record online).withStore record.id s.instances.length) id
        (some s.instances.length) purpose := by
  subst hid
  cases purpose with
  | answer => simp [lookups, ht, noted]
  | warmUp => simp [lookups, ht, noted]
  | login l =>
    rw [(found_made (hl l rfl) ht hr h).noted, stored?_of_made ht hr h, ← hl l rfl]
    rfl

omit hl in
theorem lookups_begun (hid : record.id = id) (ht : s.task? (.call n) = some (.reading id purpose))
    (hr : EdgeRecord.decodeFor id reply = .ok record)
    (h : online = true ∧ record.state = .inactive) :
    lookups n ⟨s, .record (.call n) (.ok reply) online⟩ = [] := by
  subst hid
  cases purpose <;> simp [lookups, Event.ticket?, ht, answer?_plain_begun hr h]

theorem lookups_installed {ref : EdgeRef} {i : Instance} (hid : i.edge.id = id)
    (ht : s.task? (.call n) = some (.activating ref purpose)) (hi : s.instance? ref = some i)
    (hc : s.isCurrent i = true) :
    lookups n ⟨s, .stored (.call n)⟩ = noted (s.withStore i.edge.id ref) id (some ref) purpose := by
  subst hid
  cases purpose with
  | answer => simp [lookups, ht, noted]
  | warmUp => simp [lookups, ht, noted]
  | login l =>
    rw [(found_installed (hl l rfl) ht hi hc).noted, stored?_of_installed ht hi hc, ← hl l rfl]
    rfl

end Lookups

theorem moments_pair (s : Service) (e e' : Event) :
    s.moments [e, e'] = [⟨s, e⟩, ⟨(s.step e).1, e'⟩] := rfl

variable {purpose : Purpose} {es : List Event} {new : List Consultation} {c : Consultation}

/-- If a call goes on as soon as the reading is there, the end of a write is passed over. -/
theorem Goes.read_at_once {e : Event} {id : EdgeId}
    (h : Goes (s'.resume (.call n) c.found purpose) (atHand s' purpose) es (log ++ [c]) new)
    (hsuits : purpose.Suits (.call n)) (hpeek : ∀ id, s.cache.edges.peek? id = latest? id log)
    (he : e.ticket? = some (.call n)) (hs : s.step e = s'.resume (.call n) c.found purpose)
    (hl : lookups n ⟨s, e⟩ = noted s' id c.found purpose)
    (hc : c.asks = [.read (.call c.inquiry.number) c.inquiry.id]) :
    Goes (s, [.read (.call c.inquiry.number) c.inquiry.id]) [] (e :: .stored (.call n) :: es) log
      (c :: new) := by
  obtain ⟨hstored, hstored'⟩ := step_stored_passed (resume_waits s' (.call n) c.found purpose)
  apply h.read hpeek
  · rw [hs, hstored]
  · simp only [moments_pair, requests, Moment.actions, hs, hstored, hc, List.flatMap_cons,
      List.flatMap_nil, List.filter_nil, List.append_nil, List.singleton_append]
  · simp only [moments_pair, Service.findings, List.flatMap_cons, List.flatMap_nil, hs, hstored',
      findings_resume hsuits he hs hl, List.append_nil]

/-- If a call waits for the end of the write, it goes on then. -/
theorem Goes.read_at_last {e : Event} {id : EdgeId} {b : Action} {s₂ : Service}
    (h : Goes (s'.resume (.call n) c.found purpose) (atHand s' purpose) es (log ++ [c]) new)
    (hsuits : purpose.Suits (.call n)) (hpeek : ∀ id, s.cache.edges.peek? id = latest? id log)
    (he : e.ticket? = some (.call n)) (hs : s.step e = (s₂, [b])) (hnone : lookups n ⟨s, e⟩ = [])
    (hb : b.edge? = none) (hs₂ : s₂.step (.stored (.call n)) = s'.resume (.call n) c.found purpose)
    (hl : lookups n ⟨s₂, .stored (.call n)⟩ = noted s' id c.found purpose)
    (hc : c.asks = [.read (.call c.inquiry.number) c.inquiry.id, b]) (hb' : b.asks = true) :
    Goes (s, [.read (.call c.inquiry.number) c.inquiry.id]) [] (e :: .stored (.call n) :: es) log
      (c :: new) := by
  apply h.read hpeek
  · rw [hs, hs₂]
  · simp only [moments_pair, requests, Moment.actions, hs, hs₂, hc, List.flatMap_cons, List.flatMap_nil,
      List.filter_nil, List.append_nil, List.filter_cons_of_pos hb',
      List.cons_append, List.nil_append]
  · have hquiet : Moment.findings ⟨s, e⟩ = [] := by
      simp only [Moment.findings, Moment.actions, hs, he, hnone, List.filterMap_cons, hb,
        List.filterMap_nil, List.map_nil, List.append_nil]
    simp only [moments_pair, Service.findings, List.flatMap_cons, List.flatMap_nil, hs, hquiet,
      findings_resume hsuits rfl hs₂ hl, List.append_nil, List.nil_append]

section Fetch

variable {id : EdgeId} {reply : Directory.Record} {record : EdgeRecord} {online : Bool}
  {found : Option EdgeRef}
  (hsuits : purpose.Suits (.call q.number)) (hl : ∀ l, purpose = .login l → q.id = l.current.id)
  (ho : Only q.number s) (hr : Remembers s log)
  (ht : s.task? (.call q.number) = some (.reading q.id purpose))
  (hnext : ∀ s' : Service, Only q.number s' → Remembers s' (log ++ [⟨q, some p, found⟩]) →
    Goes (s'.resume (.call q.number) found purpose) (atHand s' purpose) es
      (log ++ [⟨q, some p, found⟩]) new)

include hsuits hl ho hr ht hnext

theorem goes_failed (hf : Failed q.id p.result) (hfound : found = none) :
    Goes (s, [.read (.call q.number) q.id]) []
      (.record (.call q.number) p.result p.online :: .stored (.call q.number) :: es) log
      (⟨q, some p, found⟩ :: new) := by
  subst hfound
  have hs : s.step (.record (.call q.number) p.result p.online) =
      s.resume (.call q.number) none purpose := by
    simp only [step, ht, recordRead_of_failed _ _ _ hf]
  have hc : Consultation.asks ⟨q, some p, none⟩ = [.read (.call q.number) q.id] := by
    simp only [Consultation.asks, Reading.record?_eq_none_iff.mpr hf]
  have hgo := hnext s ho (hr.failed q p)
  exact hgo.read_at_once hsuits hr.cached rfl hs (lookups_failed hl ht hf) hc

theorem goes_made (hp : p.result = .ok reply) (hd : EdgeRecord.decodeFor q.id reply = .ok record)
    (h : ¬ (p.online = true ∧ record.state = .inactive)) (hfound : found = some s.instances.length) :
    Goes (s, [.read (.call q.number) q.id]) []
      (.record (.call q.number) p.result p.online :: .stored (.call q.number) :: es) log
      (⟨q, some p, found⟩ :: new) := by
  subst hfound
  have hid := EdgeRecord.id_of_decodeFor hd
  have hrecord : p.record? q.id = some record := by simp [Reading.record?, hp, hd, Except.toOption]
  have hs : s.step (.record (.call q.number) p.result p.online) =
      ((s.withInstance record p.online).withStore record.id s.instances.length).resume
        (.call q.number) (some s.instances.length) purpose := by
    simp only [step, ht, recordRead, hp, hd, buildInstance_made _ _ _ _ _ h]
  have hl' : lookups q.number ⟨s, .record (.call q.number) p.result p.online⟩ =
      noted ((s.withInstance record p.online).withStore record.id s.instances.length) q.id
        (some s.instances.length) purpose := by
    rw [hp]
    exact lookups_made hl hid ht hd h
  have hc : Consultation.asks ⟨q, some p, some s.instances.length⟩ =
      [.read (.call q.number) q.id] := by simp only [Consultation.asks, hrecord, if_neg h]
  have hr' := hr.renewed hid p
  rw [← hr.counted] at hr'
  have hgo := hnext ((s.withInstance record p.online).withStore record.id s.instances.length) ho hr'
  exact hgo.read_at_once hsuits hr.cached rfl hs hl' hc

theorem goes_begun (hp : p.result = .ok reply) (hd : EdgeRecord.decodeFor q.id reply = .ok record)
    (h : p.online = true ∧ record.state = .inactive) (hfound : found = some s.instances.length) :
    Goes (s, [.read (.call q.number) q.id]) []
      (.record (.call q.number) p.result p.online :: .stored (.call q.number) :: es) log
      (⟨q, some p, found⟩ :: new) := by
  subst hfound
  have hid := EdgeRecord.id_of_decodeFor hd
  have hrecord : p.record? q.id = some record := by simp [Reading.record?, hp, hd, Except.toOption]
  let waiting := s.withActivation (.call q.number) purpose record p.online
  have hs : s.step (.record (.call q.number) p.result p.online) =
      (waiting, [.write (.call q.number) q.id .state (.text EdgeState.active.name)]) := by
    simp only [step, ht, recordRead, hp, hd, buildInstance_begun _ _ _ _ _ h, hid, waiting]
  have hnone : lookups q.number ⟨s, .record (.call q.number) p.result p.online⟩ = [] := by
    rw [hp]
    exact lookups_begun hid ht hd h
  have ht' : waiting.task? (.call q.number) = some (.activating s.instances.length purpose) :=
    task?_await_self _ _ _
  have hi : waiting.instance? s.instances.length = some (s.instanceOf record p.online) :=
    instance?_withInstance_self s record p.online
  have hcurrent : waiting.isCurrent (s.instanceOf record p.online) = true :=
    isCurrent_withInstance_self s record p.online
  have hedge : (s.instanceOf record p.online).edge.id = record.id := id_instanceOf s record p.online
  have hstored : waiting.step (.stored (.call q.number)) =
      (waiting.withStore (s.instanceOf record p.online).edge.id s.instances.length).resume
        (.call q.number) (some s.instances.length) purpose := by
    simp only [step, ht', install_current waiting _ hi hcurrent]
  have hc : Consultation.asks ⟨q, some p, some s.instances.length⟩ =
      [.read (.call q.number) q.id,
        .write (.call q.number) q.id .state (.text EdgeState.active.name)] := by
    simp only [Consultation.asks, hrecord, if_pos h]
  have hr' : Remembers (waiting.withStore (s.instanceOf record p.online).edge.id s.instances.length)
      (log ++ [⟨q, some p, some s.instances.length⟩]) := by
    have hmade := hr.renewed hid p
    rw [← hr.counted] at hmade
    rw [hedge]
    exact ⟨hmade.unbounded, hmade.cached, hmade.counted⟩
  have hgo := hnext (waiting.withStore (s.instanceOf record p.online).edge.id s.instances.length)
    (ho.await _) hr'
  exact hgo.read_at_last hsuits hr.cached rfl hs hnone rfl hstored
    (lookups_installed hl (hedge.trans hid) ht' hi hcurrent) hc rfl

end Fetch

/-- A reading, and the activation that it may lead to, take two events. Then the call goes on with what was
found, and that is at hand. -/
theorem goes_startReading (hsuits : purpose.Suits (.call q.number))
    (hl : ∀ l, purpose = .login l → q.id = l.current.id) (ho : Only q.number s) (hr : Remembers s log)
    {found : Option EdgeRef} (hfound : found = (p.record? q.id).map fun _ => renewals log)
    (hnext : ∀ s' : Service, Only q.number s' → Remembers s' (log ++ [⟨q, some p, found⟩]) →
      Goes (s'.resume (.call q.number) found purpose) (atHand s' purpose) es
        (log ++ [⟨q, some p, found⟩]) new) :
    Goes (s.startReading (.call q.number) q.id purpose) []
      (.record (.call q.number) p.result p.online :: .stored (.call q.number) :: es) log
      (⟨q, some p, found⟩ :: new) := by
  have ho' := ho.await (.reading q.id purpose)
  have hr' : Remembers (s.await (.call q.number) (.reading q.id purpose)) log :=
    ⟨hr.unbounded, hr.cached, hr.counted⟩
  have ht := task?_await_self s (.call q.number) (.reading q.id purpose)
  by_cases hf : Failed q.id p.result
  · rw [Reading.record?_eq_none_iff.mpr hf] at hfound
    exact goes_failed hsuits hl ho' hr' ht hnext hf hfound
  · obtain ⟨reply, record, hp, hd⟩ := exists_decodeFor hf
    have hrecord : p.record? q.id = some record := by
      simp [Reading.record?, hp, hd, Except.toOption]
    rw [hrecord, Option.map_some, ← hr'.counted] at hfound
    by_cases h : p.online = true ∧ record.state = .inactive
    · exact goes_begun hsuits hl ho' hr' ht hnext hp hd h hfound
    · exact goes_made hsuits hl ho' hr' ht hnext hp hd h hfound

end Reading

section Grants

variable {s : Service} {n : Nat} {log new : List Consultation} {es : List Event}
  {heard : List (Option EdgeRef)}

theorem Goes.answered {actions : List Action} (h : Goes (s, []) heard es log new)
    (ha : actions.filter Action.asks = []) : Goes (s, actions) heard es log new := by
  refine ⟨?_, h.finds, ?_, h.idle, h.after⟩
  · rw [ha]
    exact h.asks
  · rw [ha]
    exact h.seen

theorem Remembers.served (h : Remembers s log) {q : Inquiry} {ref : EdgeRef}
    (hl : latest? q.id log = some ref) : Remembers s (log ++ [⟨q, none, some ref⟩]) where
  unbounded := h.unbounded
  cached id := by
    by_cases hq : q.id = id
    · rw [latest?_concat_self hq, h.cached, ← hq, hl]
      rfl
    · rw [latest?_concat_of_ne hq, h.cached]
  counted := by
    rw [h.counted, renewals_concat]
    rfl

theorem served_congr {edges edges' : Cache.Recent EdgeId EdgeRef}
    (h : ∀ id, edges.peek? id = edges'.peek? id) (grants : List DeviceGrant) :
    Service.served edges grants = Service.served edges' grants := by
  induction grants with
  | nil => rfl
  | cons g rest ih => simp only [Service.served, h, ih]

theorem used_keepFound {id : EdgeId} {found : Option EdgeRef}
    (h : found.isSome = true → (s.cache.edges.peek? id).isSome = true) :
    Cache.Recent.Used s.cache.edges (s.keepFound id found).cache.edges := by
  cases found with
  | none => exact .refl
  | some ref =>
    obtain ⟨there, hp⟩ := Option.isSome_iff_exists.mp (h rfl)
    rw [keepFound, Cache.edges_putEdgeIfAbsent_of_some _ hp]
    exact Cache.Recent.used_touch _ _

theorem Remembers.keepFound (hr : Remembers s log) (id : EdgeId) (found : Option EdgeRef)
    (h : found.isSome = true → (s.cache.edges.peek? id).isSome = true) :
    Remembers (s.keepFound id found) log := by
  have hu := used_keepFound h
  obtain ⟨edges, hkept⟩ := keepFound_eq s id found
  rw [hkept] at hu ⊢
  exact hr.of_used hu rfl

theorem Only.keepFound (ho : Only n s) (id : EdgeId) (found : Option EdgeRef) :
    Only n (s.keepFound id found) := by
  obtain ⟨edges, hkept⟩ := keepFound_eq s id found
  rw [hkept]
  exact ho

/-- A login goes through its grants: what is at hand is passed in one step, and anything else is read. -/
theorem goes_resolveGrants (ho : Only n s) (hr : Remembers s log) (user : UserInfo)
    (granted : List (EdgeId × Role)) (grants : List DeviceGrant) (readings : Nat → Reading)
    {count : Nat} (hcount : grants.length ≤ count) :
    Goes (s.resolveGrants (.call n) user granted grants)
      ((Service.served s.cache.edges grants).map (·.found)) (answers n readings count) log
      (consult log readings (grants.map fun g => ⟨n, g.id, false⟩)) := by
  -- on the grants that are left; the log, the readings and the service go along
  induction grants generalizing s granted log readings count with
  | nil =>
    have hk := keeps_commit s (.call n) user granted
    have hidle : (s.commit (.call n) user granted).1.tasks = [] := ho.close
    have hgo := goes_idle (n := n) hidle (hr.of_used hk.edges hk.instances) readings count
    exact hgo.answered rfl
  | cons g rest ih =>
    have hk := keeps_resolveGrants s (.call n) user granted (g :: rest)
    let s₁ : Service := { s with cache := { s.cache with edges := s.cache.edges.touch g.id } }
    have hr₁ : Remembers s₁ log := hr.of_used (Cache.Recent.used_touch s.cache.edges g.id) rfl
    cases hp : s.cache.edges.peek? g.id with
    | some ref =>
      have hlatest : latest? g.id log = some ref := (hr.cached g.id).symm.trans hp
      have hthere : (s₁.cache.edges.peek? g.id).isSome = true := by rw [hr₁.cached, hlatest]; rfl
      have hr₂ := hr₁.keepFound g.id (some ref) fun _ => hthere
      have hgoes : s.resolveGrants (.call n) user granted (g :: rest) =
          (s₁.keepFound g.id (some ref)).resolveGrants (.call n) user
            (granted ++ [(g.id, Role.ofText g.role)]) rest := by
        simp only [resolveGrants, Cache.getEdge, Cache.Recent.get, hp, s₁]
      have hserved : Service.served (s₁.keepFound g.id (some ref)).cache.edges rest =
          Service.served s.cache.edges rest :=
        served_congr (fun id => (hr₂.cached id).trans (hr.cached id).symm) rest
      have hih := ih (Only.keepFound (s := s₁) ho g.id (some ref))
        (hr₂.served (q := ⟨n, g.id, false⟩) hlatest) (granted ++ [(g.id, Role.ofText g.role)])
        readings (Nat.le_of_succ_le hcount)
      rw [← hgoes, hserved] at hih
      rw [List.map_cons, consult_cons_of_latest? rfl hlatest, Service.served, hp]
      exact hih.served rfl fun id => (hk.edges.peek?_eq id).trans (hr.cached id)
    | none =>
      have hlatest : latest? g.id log = none := (hr.cached g.id).symm.trans hp
      obtain ⟨count, rfl⟩ : ∃ k, count = k + 1 := ⟨count - 1, by simp at hcount; omega⟩
      have hgoes : s.resolveGrants (.call n) user granted (g :: rest) =
          s₁.startReading (.call n) g.id (.login ⟨user, granted, g, rest⟩) := by
        simp only [resolveGrants, Cache.getEdge, Cache.Recent.get, hp, s₁]
      rw [hgoes, answers_succ, List.map_cons, consult_cons_of_read (Or.inr hlatest) rfl,
        Service.served, hp]
      refine goes_startReading (q := ⟨n, g.id, false⟩) (s := s₁) (by trivial) (fun l hl => ?_) ho hr₁
        rfl fun s' ho' hr' => ?_
      · cases hl
        rfl
      · generalize hc : (⟨⟨n, g.id, false⟩, some (readings 0),
          ((readings 0).record? g.id).map fun _ => renewals log⟩ : Consultation) = c at hr' ⊢
        have hthere : c.found.isSome = true → (s'.cache.edges.peek? g.id).isSome = true := by
          intro hfound
          rw [hr'.cached, latest?_concat_self (by rw [← hc]), Option.isSome_or, hfound]
          rfl
        have hr'' := hr'.keepFound g.id c.found hthere
        have hserved : Service.served (s'.keepFound g.id c.found).cache.edges rest =
            Service.served s'.cache.edges rest :=
          served_congr (fun id => (hr''.cached id).trans (hr'.cached id).symm) rest
        have hih := ih (ho'.keepFound g.id c.found) hr'' (granted ++ [(g.id, Role.ofText g.role)])
          (fun k => readings (k + 1)) (Nat.le_of_succ_le_succ hcount)
        rw [hserved] at hih
        subst hc
        exact hih

end Grants

end EdgeFleet.Service
