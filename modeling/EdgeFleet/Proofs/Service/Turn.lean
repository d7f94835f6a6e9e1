import EdgeFleet.Proofs.Service.Frame

namespace EdgeFleet.Service

open Cache.Recent (Used)

/-- An instance that is put into the cache with its generation; it is `late` if a later refresh of
the edge has begun. -/
structure Store where
  id : EdgeId
  ref : EdgeRef
  generation : Nat
  late : Bool
  deriving DecidableEq

/-- The instance that is put into the cache after its activation was written: a current one, or else
one that a login found if there is no instance of the edge. -/
def storeOf? (s : Service) (ref : EdgeRef) (i : Instance) (purpose : Purpose) : Option Store :=
  if s.isCurrent i then some ⟨i.edge.id, ref, i.generation, false⟩
  else match purpose with
    | .login l =>
      if (s.cache.edges.peek? l.current.id).isNone then
        some ⟨l.current.id, ref, i.generation, true⟩
      else none
    | _ => none

/-- The instance that an event puts into the cache. -/
def stored? (s : Service) : Event → Option Store
  | .record t (.ok reply) online =>
    match s.task? t with
    | some (.reading id _) =>
      match EdgeRecord.decodeFor id reply with
      | .ok record =>
        -- one that is to be activated is put when that is written
        if online ∧ record.state = .inactive then none
        else some ⟨id, s.instances.length, (s.generations.advance id).2, false⟩
      | .error _ => none
    | _ => none
  | .stored t =>
    match s.task? t with
    | some (.activating ref purpose) => (s.instance? ref).bind (s.storeOf? ref · purpose)
    | _ => none
  | _ => none

/-- The instance of a task that waits for the activation to be written. -/
def writing? (s : Service) (t : Ticket) : Option EdgeRef :=
  match s.task? t with
  | some (.activating ref _) => some ref
  | _ => none

/-- The instance that an event gives up: that of a call that is dropped while it waits for the
activation to be written. -/
def abandoned? (s : Service) : Event → Option EdgeRef
  | .drop n => s.writing? (.call n)
  | _ => none

/-- The update of an instance that an event makes. -/
def updated? (s : Service) : Event → Option (EdgeRef × Edge.Update)
  | .update n ref u =>
    if (s.task? (.call n)).isNone ∧ (s.instance? ref).isSome then some (ref, u) else none
  | _ => none

/-- An event that brings the record of the edge that a task reads. -/
def Decodes (s : Service) (e : Event) (t : Ticket) (purpose : Purpose) (record : EdgeRecord)
    (online : Bool) : Prop :=
  s.task? t = some (.reading record.id purpose) ∧
    ∃ reply, EdgeRecord.decodeFor record.id reply = .ok record ∧ e = .record t (.ok reply) online

/-- The instance that is made of a record. -/
def instanceOf (s : Service) (record : EdgeRecord) (online : Bool) : Instance where
  edge := ((Edge.ofRecord record).update (.online online)).1
  generation := (s.generations.advance record.id).2

/-- The service with the instance of a record, whose generation is the current one from now on. -/
def withInstance (s : Service) (record : EdgeRecord) (online : Bool) : Service :=
  { s with
    generations := (s.generations.advance record.id).1
    instances := s.instances ++ [s.instanceOf record online] }

/-- The service with the instance of a record whose activation is to be written. -/
def withActivation (s : Service) (t : Ticket) (purpose : Purpose) (record : EdgeRecord)
    (online : Bool) : Service :=
  (s.withInstance record online).await t (.activating s.instances.length purpose)

/-- The service with an instance in its cache. -/
def withStore (s : Service) (id : EdgeId) (ref : EdgeRef) : Service :=
  { s with cache := s.cache.putEdge id ref }

def withUpdate (s : Service) (ref : EdgeRef) (i : Instance) (u : Edge.Update) : Service :=
  { s with instances := s.instances.set ref { i with edge := (i.edge.update u).1 } }

/-- Tasks go on without instances of their own; all that refreshes share is kept. -/
structure Quiet (s s' : Service) : Prop where
  instances : s'.instances = s.instances
  generations : s'.generations = s.generations
  edges : Used s.cache.edges s'.cache.edges
  begun : ∀ t task, s'.task? t = some task → s.task? t = some task ∨ task.Open
  kept : ∀ t ref p, s.task? t = some (.activating ref p) → s'.task? t = some (.activating ref p)
  free : (∀ n, s.warmUps ≤ n → s.task? (.warmUp n) = none) →
    ∀ n, s'.warmUps ≤ n → s'.task? (.warmUp n) = none

theorem Quiet.refl (s : Service) : Quiet s s :=
  ⟨rfl, rfl, .refl, fun _ _ h => Or.inl h, fun _ _ _ h => h, fun h => h⟩

theorem Quiet.trans {s s' s'' : Service} (h : Quiet s s') (h' : Quiet s' s'') : Quiet s s'' := by
  refine ⟨h'.instances.trans h.instances, h'.generations.trans h.generations,
    h.edges.trans h'.edges, ?_, fun t ref p ht => h'.kept t ref p (h.kept t ref p ht),
    fun hf => h'.free (h.free hf)⟩
  intro t task ht
  rcases h'.begun t task ht with ht | ho
  · exact h.begun t task ht
  · exact Or.inr ho

theorem Keeps.quiet {t : Ticket} {s s' : Service} (h : Keeps t s s')
    (ht : ∀ ref p, s.task? t ≠ some (.activating ref p))
    (hw : ∀ n, t = .warmUp n → s.task? t ≠ none) : Quiet s s' := by
  refine ⟨h.instances, h.generations, h.edges, ?_, ?_, ?_⟩
  · intro other task ho
    by_cases hot : other = t
    · subst hot
      exact Or.inr (h.own task ho)
    · exact Or.inl (h.others other hot ▸ ho)
  · intro other ref p ho
    have hot : other ≠ t := fun hot => ht ref p (hot ▸ ho)
    rw [h.others other hot, ho]
  · intro hf n hn
    rw [h.warmUps] at hn
    by_cases hnt : Ticket.warmUp n = t
    · exact absurd (hnt ▸ hf n hn) (hw n hnt.symm)
    · rw [h.others _ hnt]
      exact hf n hn

theorem Keeps.quiet_of_task {t : Ticket} {s s' : Service} (h : Keeps t s s') {task : Task}
    (ht : s.task? t = some task) (ho : ∀ ref p, task ≠ .activating ref p) : Quiet s s' := by
  apply h.quiet
  · intro ref p ha
    exact ho ref p (Option.some.inj (ht.symm.trans ha))
  · intro n _ hn
    rw [ht] at hn
    cases hn

/-- A task that had an instance is done with it, and then goes on quietly. -/
theorem Keeps.quiet_close {t : Ticket} {s s' : Service} (h : Keeps t s s')
    (ht : ∀ n, t = .warmUp n → n < s.warmUps) : Quiet (s.close t) s' := by
  refine ⟨h.instances, h.generations, h.edges, ?_, ?_, ?_⟩
  · intro other task ho
    by_cases hot : other = t
    · subst hot
      exact Or.inr (h.own task ho)
    · rw [task?_close, if_neg hot, ← h.others other hot]
      exact Or.inl ho
  · intro other ref p ho
    rw [task?_close] at ho
    split at ho
    · cases ho
    · rename_i hot
      rw [h.others other hot, ho]
  · intro hf n hn
    rw [h.warmUps] at hn
    have hnt : Ticket.warmUp n ≠ t := by
      intro he
      have hlt := ht n he.symm
      omega
    have hn' := hf n hn
    rw [task?_close, if_neg hnt] at hn'
    rw [h.others _ hnt, hn']

theorem quiet_close_await (s : Service) (t : Ticket) (task : Task) :
    Quiet ((s.await t task).close t) (s.close t) := by
  have htask (other : Ticket) :
      ((s.await t task).close t).task? other = (s.close t).task? other := by
    simp only [task?_close, task?_await]
    split <;> rfl
  refine ⟨rfl, rfl, .refl, fun other _ ho => Or.inl ?_, fun other _ _ ho => ?_, fun hf n hn => ?_⟩
  · rw [htask, ho]
  · rw [← htask, ho]
  · rw [← htask]
    exact hf n hn

theorem Keeps.quiet_of_free {n : Nat} {s s' : Service} (h : Keeps (.call n) s s')
    (hn : s.task? (.call n) = none) : Quiet s s' := by
  apply h.quiet
  · intro ref p ha
    rw [hn] at ha
    cases ha
  · intro m hm
    cases hm

theorem quiet_warmUp {s : Service} (hf : ∀ n, s.warmUps ≤ n → s.task? (.warmUp n) = none)
    (id : EdgeId) : Quiet s (s.warmUp id).1 := by
  cases hp : s.permits with
  | zero =>
    simp only [warmUp, hp]
    exact .refl s
  | succ permits =>
    have hfree := hf s.warmUps (Nat.le_refl _)
    simp only [warmUp, hp]
    have htask (t : Ticket) :
        (({ s with permits, warmUps := s.warmUps + 1 } : Service).await (.warmUp s.warmUps)
          (.queued id)).task? t =
        if t = .warmUp s.warmUps then some (.queued id) else s.task? t := task?_await _ _ _ _
    refine ⟨rfl, rfl, .refl, ?_, ?_, ?_⟩
    · intro t task ht
      rw [htask] at ht
      split at ht
      · exact Or.inr (Option.some.inj ht ▸ trivial)
      · exact Or.inl ht
    · intro t ref p ht
      have hne : t ≠ .warmUp s.warmUps := by
        intro he
        rw [he, hfree] at ht
        cases ht
      rw [htask, if_neg hne, ht]
    · intro _ n hn
      have hlt : s.warmUps + 1 ≤ n := hn
      have hne : Ticket.warmUp n ≠ .warmUp s.warmUps := by
        intro he
        injection he with he
        omega
      rw [htask, if_neg hne]
      exact hf n (by omega)

theorem quiet_warmUpAll {s : Service} (hf : ∀ n, s.warmUps ≤ n → s.task? (.warmUp n) = none)
    (ids : List EdgeId) : Quiet s (s.warmUpAll ids).1 := by
  induction ids generalizing s with
  | nil => exact .refl s
  | cons id rest ih =>
    have h := quiet_warmUp hf id
    exact h.trans (ih (h.free hf))

theorem quiet_whenFree (s : Service) (n : Nat) (call : Ticket → Service × List Action)
    (h : Keeps (.call n) s (call (.call n)).1) : Quiet s (s.whenFree n call).1 := by
  cases hn : s.task? (.call n) with
  | none =>
    simp only [whenFree, hn, Option.isSome_none, Bool.false_eq_true, if_false]
    exact h.quiet_of_free hn
  | some task =>
    simp only [whenFree, hn, Option.isSome_some, if_true]
    exact .refl s

/-- What holds of the tasks at any time: those in the background have been counted, and a login reads
and activates the edge that it grants. -/
structure Aligned (s : Service) : Prop where
  free : ∀ n, s.warmUps ≤ n → s.task? (.warmUp n) = none
  reading : ∀ t id l, s.task? t = some (.reading id (.login l)) → id = l.current.id
  activating : ∀ t ref p, s.task? t = some (.activating ref p) →
    ∃ i, s.instance? ref = some i ∧ ∀ l, p = .login l → i.edge.id = l.current.id

theorem Aligned.lt_warmUps {s : Service} (ha : Aligned s) {t : Ticket} {task : Task}
    (ht : s.task? t = some task) (n : Nat) (hn : t = .warmUp n) : n < s.warmUps := by
  subst hn
  rcases Nat.lt_or_ge n s.warmUps with hlt | hle
  · exact hlt
  · rw [ha.free n hle] at ht
    cases ht

/-- The turns that an event can bring about. -/
inductive Turn (s : Service) (e : Event) : Service → Prop
  | quiet {s' : Service} (hs : s.stored? e = none) (ha : s.abandoned? e = none)
      (hu : s.updated? e = none) (h : Quiet s s') : Turn s e s'
  | updated {s' : Service} {n : Nat} {ref : EdgeRef} {u : Edge.Update} {i : Instance}
      (he : e = .update n ref u) (hu : s.updated? e = some (ref, u))
      (hi : s.instance? ref = some i) (h : Quiet (s.withUpdate ref i u) s') : Turn s e s'
  | dropped {s' : Service} {n : Nat} (he : e = .drop n) (h : Quiet (s.close (.call n)) s') :
      Turn s e s'
  | begun {s' : Service} {t : Ticket} {purpose : Purpose} {record : EdgeRecord} {online : Bool}
      (hd : s.Decodes e t purpose record online) (hs : s.stored? e = none)
      (h : Quiet (s.withActivation t purpose record online) s') : Turn s e s'
  | renewed {s' : Service} {t : Ticket} {purpose : Purpose} {record : EdgeRecord} {online : Bool}
      (hd : s.Decodes e t purpose record online)
      (hs : s.stored? e =
        some ⟨record.id, s.instances.length, (s.generations.advance record.id).2, false⟩)
      (h : Quiet
        (((s.withActivation t purpose record online).close t).withStore record.id
          s.instances.length) s') : Turn s e s'
  | installed {s' : Service} {t : Ticket} {ref : EdgeRef} {purpose : Purpose} {i : Instance}
      (he : e = .stored t) (ht : s.task? t = some (.activating ref purpose))
      (hi : s.instance? ref = some i) (hc : s.isCurrent i = true)
      (hs : s.stored? e = some ⟨i.edge.id, ref, i.generation, false⟩)
      (h : Quiet ((s.close t).withStore i.edge.id ref) s') : Turn s e s'
  | found {s' : Service} {t : Ticket} {ref : EdgeRef} {purpose : Purpose} {i : Instance}
      (he : e = .stored t) (ht : s.task? t = some (.activating ref purpose))
      (hi : s.instance? ref = some i) (hc : s.isCurrent i = false)
      (hn : s.cache.edges.peek? i.edge.id = none)
      (hs : s.stored? e = some ⟨i.edge.id, ref, i.generation, true⟩)
      (h : Quiet ((s.close t).withStore i.edge.id ref) s') : Turn s e s'
  | superseded {s' : Service} {t : Ticket} {ref : EdgeRef} {purpose : Purpose} {i : Instance}
      (he : e = .stored t) (ht : s.task? t = some (.activating ref purpose))
      (hi : s.instance? ref = some i) (hc : s.isCurrent i = false) (hs : s.stored? e = none)
      (h : Quiet (s.close t) s') : Turn s e s'

theorem quiet_lookUp (s : Service) (n : Nat) (id : EdgeId) :
    Quiet s (s.whenFree n fun t => s.lookUp t id).1 := by
  apply quiet_whenFree
  have hu := Cache.Recent.used_touch s.cache.edges id
  cases hp : s.cache.edges.peek? id with
  | none =>
    simp only [lookUp, Cache.getEdge, Cache.Recent.get, hp]
    exact .of_used { s.cache with edges := s.cache.edges.touch id } hu (keeps_await _ _ trivial)
  | some ref =>
    simp only [lookUp, Cache.getEdge, Cache.Recent.get, hp]
    exact .of_used { s.cache with edges := s.cache.edges.touch id } hu (keeps_finish _ _ _)

theorem keeps_startLogin (s : Service) (t : Ticket) (session : Option String) :
    Keeps t s (s.startLogin t session).1 := by
  unfold startLogin
  split
  · exact keeps_finish s t _
  · exact keeps_await s t trivial

theorem keeps_startSearch (s : Service) (t : Ticket) (apikey : String) :
    Keeps t s (s.startSearch t apikey).1 := by
  unfold startSearch
  split
  · exact keeps_finish s t _
  · exact keeps_await s t trivial

theorem keeps_sessionConfirmed (s : Service) (t : Ticket) (result : Except AuthError SessionInfo) :
    Keeps t s (s.sessionConfirmed t result).1 := by
  cases result with
  | error e => exact keeps_finish s t _
  | ok info => exact keeps_resolveGrants s t _ _ _

theorem keeps_updateInstance (s : Service) (t : Ticket) {ref : EdgeRef} {i : Instance}
    (hi : s.instance? ref = some i) (u : Edge.Update) :
    Keeps t (s.withUpdate ref i u) (s.updateInstance t ref u).1 := by
  simp only [updateInstance, hi]
  split
  · exact keeps_finish _ t _
  · have h := keeps_finish (s.withUpdate ref i u) t .done
    exact ⟨h.instances, h.generations, h.edges, h.warmUps, h.others, h.own⟩
  · split
    · exact keeps_finish _ t _
    · exact keeps_await _ t trivial

theorem quiet_searchDone {s : Service} (ha : Aligned s) {t : Ticket}
    (ht : s.task? t = some .searching) (result : Except DirectoryError (List UInt32)) :
    Quiet s (s.searchDone t result).1 := by
  have hclose : Quiet s (s.close t) :=
    (keeps_finish s t .done).quiet_of_task ht fun _ _ => Task.noConfusion
  cases result with
  | error e => exact hclose
  | ok ids => exact hclose.trans (quiet_warmUpAll (hclose.free ha.free) (validIds ids))

theorem id_instanceOf (s : Service) (record : EdgeRecord) (online : Bool) :
    (s.instanceOf record online).edge.id = record.id := Edge.id_update _ _

theorem instance?_withInstance_self (s : Service) (record : EdgeRecord) (online : Bool) :
    (s.withInstance record online).instance? s.instances.length =
      some (s.instanceOf record online) := by
  simp [instance?, withInstance]

theorem isCurrent_withInstance_self (s : Service) (record : EdgeRecord) (online : Bool) :
    (s.withInstance record online).isCurrent (s.instanceOf record online) = true := by
  rw [isCurrent, id_instanceOf]
  exact (Generations.isCurrent_advance_self s.generations record.id _).mpr rfl

/-- An edge that is seen online for the first time waits for its activation to be written. -/
theorem buildInstance_begun (s : Service) (t : Ticket) (record : EdgeRecord) (online : Bool)
    (purpose : Purpose) (h : online = true ∧ record.state = .inactive) :
    s.buildInstance t record online purpose =
      (s.withActivation t purpose record online,
        [.write t record.id .state (.text EdgeState.active.name)]) := by
  have hc := isCurrent_withInstance_self s record online
  obtain ⟨ho, hr⟩ := h
  have hu : (Edge.ofRecord record).update (.online online) =
      ({ Edge.ofRecord record with online, state := .active }, some .activated) := by
    simp [Edge.update, Edge.ofRecord, ho, hr]
  simp only [isCurrent, instanceOf, withInstance, hu] at hc
  simp only [buildInstance, hu, Option.bind_some, WriteBack.effect, WriteBack.immediate?, hc, if_true,
    withActivation, withInstance, instanceOf]
  rfl

theorem buildInstance_settled (s : Service) (t : Ticket) (record : EdgeRecord) (online : Bool)
    (purpose : Purpose) (h : ¬ (online = true ∧ record.state = .inactive)) :
    s.buildInstance t record online purpose =
      (s.withInstance record online).install t s.instances.length purpose := by
  have hu : (Edge.ofRecord record).update (.online online) =
      ({ Edge.ofRecord record with online }, none) := by
    simp only [Edge.update, Edge.ofRecord, h, if_false]
  simp only [buildInstance, hu, Option.bind_none, withInstance, instanceOf]

theorem keeps_buildInstance {s : Service} (ha : Aligned s) {t : Ticket} {purpose : Purpose}
    {record : EdgeRecord} (ht : s.task? t = some (.reading record.id purpose)) (online : Bool)
    (h : ¬ (online = true ∧ record.state = .inactive)) :
    Keeps t ((s.withInstance record online).withStore record.id s.instances.length)
      (s.buildInstance t record online purpose).1 := by
  have hk := keeps_install_current (s.withInstance record online) t
    (instance?_withInstance_self s record online) (isCurrent_withInstance_self s record online)
    purpose
  rw [id_instanceOf] at hk
  rw [buildInstance_settled s t record online purpose h]
  apply hk
  rintro l rfl
  exact ha.reading t record.id l ht

theorem stored?_of_made {s : Service} {t : Ticket} {purpose : Purpose} {record : EdgeRecord}
    {reply : Directory.Record} {online : Bool}
    (ht : s.task? t = some (.reading record.id purpose))
    (hr : EdgeRecord.decodeFor record.id reply = .ok record)
    (h : ¬ (online = true ∧ record.state = .inactive)) :
    s.stored? (.record t (.ok reply) online) =
      some ⟨record.id, s.instances.length, (s.generations.advance record.id).2, false⟩ := by
  simp [stored?, ht, hr, h]

/-- A record that a task was waiting for makes an instance, which is put into the cache now or when
its activation is written. -/
theorem turn_buildInstance {s : Service} (ha : Aligned s) {e : Event} {t : Ticket}
    {purpose : Purpose} {record : EdgeRecord} {online : Bool}
    (hd : s.Decodes e t purpose record online) :
    Turn s e (s.buildInstance t record online purpose).1 := by
  obtain ⟨ht, reply, hr, rfl⟩ := id hd
  by_cases h : online = true ∧ record.state = .inactive
  · rw [buildInstance_begun s t record online purpose h]
    exact .begun hd (by simp [stored?, ht, hr, h]) (.refl _)
  · refine .renewed hd (stored?_of_made ht hr h) ?_
    have hq := (keeps_buildInstance ha ht online h).quiet_close (ha.lt_warmUps ht)
    -- the instance has waited for nothing
    have ho := quiet_close_await
      ((s.withInstance record online).withStore record.id s.instances.length) t
      (.activating s.instances.length purpose)
    exact ho.trans hq

theorem turn_record {s : Service} (ha : Aligned s) (t : Ticket)
    (result : Except DirectoryError Directory.Record) (online : Bool) :
    Turn s (.record t result online) (s.step (.record t result online)).1 := by
  simp only [step]
  split
  · rename_i id purpose ht
    have hfail (hs : s.stored? (.record t result online) = none) :
        Turn s (.record t result online) (s.resume t none purpose).1 :=
      .quiet hs rfl rfl
        ((keeps_resume_none s t purpose).quiet_of_task ht fun _ _ => Task.noConfusion)
    cases result with
    | error e => exact hfail rfl
    | ok reply =>
      cases hr : EdgeRecord.decodeFor id reply with
      | error e =>
        rw [recordRead_of_decodeFor_error s t purpose hr]
        exact hfail (by simp [stored?, ht, hr])
      | ok record =>
        have hid := EdgeRecord.id_of_decodeFor hr
        subst hid
        simp only [recordRead, hr]
        exact turn_buildInstance ha ⟨ht, reply, hr, rfl⟩
  · refine .quiet ?_ rfl rfl (.refl s)
    cases result with
    | error e => rfl
    | ok reply => simp only [stored?]

theorem turn_stored {s : Service} (ha : Aligned s) (t : Ticket) :
    Turn s (.stored t) (s.step (.stored t)).1 := by
  simp only [step]
  split
  · rename_i ref purpose ht
    obtain ⟨i, hi, hl⟩ := ha.activating t ref purpose ht
    have hw := ha.lt_warmUps ht
    have hs : s.stored? (.stored t) = s.storeOf? ref i purpose := by simp [stored?, ht, hi]
    cases hc : s.isCurrent i with
    | true =>
      simp only [storeOf?, hc, if_true] at hs
      exact .installed rfl ht hi hc hs ((keeps_install_current s t hi hc purpose hl).quiet_close hw)
    | false =>
      -- a later one has, and only a login that finds no other instance still puts this one
      simp only [storeOf?, hc, Bool.false_eq_true, if_false] at hs
      rw [install_superseded s t hi hc]
      have hthere (hf : ∀ l, purpose = .login l → (s.cache.edges.peek? l.current.id).isSome)
          (hs : s.stored? (.stored t) = none) :
          Turn s (.stored t) (s.resume t (some ref) purpose).1 :=
        .superseded rfl ht hi hc hs ((keeps_resume_there s t ref purpose hf).quiet_close hw)
      cases purpose with
      | answer => exact hthere (fun _ => Purpose.noConfusion) hs
      | warmUp => exact hthere (fun _ => Purpose.noConfusion) hs
      | login l =>
        have hid := hl l rfl
        simp only [← hid] at hs
        cases hn : s.cache.edges.peek? i.edge.id with
        | none =>
          have hk := keeps_resume_absent s t ref l (hid ▸ hn)
          rw [← hid] at hk
          refine .found rfl ht hi hc hn ?_ (hk.quiet_close hw)
          simpa [hn] using hs
        | some there =>
          refine hthere (fun l' hl' => ?_) (by simpa [hn] using hs)
          cases hl'
          simp [← hid, hn]
  · rename_i ht
    refine .quiet (by simp [stored?, ht]) rfl rfl ?_
    exact (keeps_finish s t .done).quiet_of_task ht fun _ _ => Task.noConfusion
  · refine .quiet ?_ rfl rfl (.refl s)
    simp only [stored?]

theorem turn_update (s : Service) (n : Nat) (ref : EdgeRef) (u : Edge.Update) :
    Turn s (.update n ref u) (s.step (.update n ref u)).1 := by
  simp only [step]
  cases hn : s.task? (.call n) with
  | some task =>
    simp only [whenFree, hn, Option.isSome_some, if_true]
    exact .quiet rfl rfl (by simp [updated?, hn]) (.refl s)
  | none =>
    simp only [whenFree, hn, Option.isSome_none, Bool.false_eq_true, if_false]
    cases hi : s.instance? ref with
    | none =>
      simp only [updateInstance, hi]
      exact .quiet rfl rfl (by simp [updated?, hi]) ((keeps_finish s _ _).quiet_of_free hn)
    | some i =>
      exact .updated rfl (by simp [updated?, hn, hi]) hi
        ((keeps_updateInstance s _ hi u).quiet_of_free hn)

/-- Every step is a turn. -/
theorem turn_step {s : Service} (ha : Aligned s) (e : Event) : Turn s e (s.step e).1 := by
  cases e with
  | lookUp n id => exact .quiet rfl rfl rfl (quiet_lookUp s n id)
  | refresh n id => exact .quiet rfl rfl rfl (quiet_whenFree s n _ (keeps_await s _ trivial))
  | logIn n session => exact .quiet rfl rfl rfl (quiet_whenFree s n _ (keeps_startLogin s _ session))
  | resolve n apikey => exact .quiet rfl rfl rfl (quiet_whenFree s n _ (keeps_startSearch s _ apikey))
  | findUser n id =>
    refine .quiet rfl rfl rfl (quiet_whenFree s n _ ?_)
    exact .of_used (s.cache.getUser id).1 .refl (keeps_finish _ _ _)
  | update n ref u => exact turn_update s n ref u
  | drop n => exact .dropped rfl (.refl _)
  | confirmed t result =>
    simp only [step]
    split
    · rename_i ht
      exact .quiet rfl rfl rfl
        ((keeps_sessionConfirmed s t result).quiet_of_task ht fun _ _ => Task.noConfusion)
    · exact .quiet rfl rfl rfl (.refl s)
  | searched t result =>
    simp only [step]
    split
    · rename_i ht
      exact .quiet rfl rfl rfl (quiet_searchDone ha ht result)
    · exact .quiet rfl rfl rfl (.refl s)
  | turn t =>
    simp only [step]
    split
    · rename_i id ht
      have hk : Keeps t s (s.startReading t id .warmUp).1 := keeps_await s t trivial
      exact .quiet rfl rfl rfl (hk.quiet_of_task ht fun _ _ => Task.noConfusion)
    · exact .quiet rfl rfl rfl (.refl s)
  | record t result online => exact turn_record ha t result online
  | stored t => exact turn_stored ha t
  | worker e =>
    have hq := Quiet.refl s
    exact .quiet rfl rfl rfl ⟨rfl, rfl, .refl, hq.begun, hq.kept, hq.free⟩

end EdgeFleet.Service
