import EdgeFleet.Proofs.Service.Erasure
import EdgeFleet.Proofs.Service.Freshness

namespace EdgeFleet.Service

/-- A step changes the tasks at most, and writes nothing. -/
structure Traceless (s : Service) (r : Service × List Action) : Prop where
  instances : r.1.instances = s.instances
  cache : r.1.cache = s.cache
  generations : r.1.generations = s.generations
  worker : r.1.worker = s.worker
  permits : r.1.permits = s.permits
  writes : writesOf r.2 = []

/-- The call is about to read an edge: it is to refresh it, or looks it up and it is not at hand. -/
inductive Asks (s : Service) (n : Nat) (id : EdgeId) : Event → Prop
  | refresh : Asks s n id (.refresh n id)
  | lookUp (h : s.cache.edges.peek? id = none) : Asks s n id (.lookUp n id)

theorem Asks.step {s : Service} {n : Nat} {id : EdgeId} {e : Event} (h : Asks s n id e)
    (hn : s.task? (.call n) = none) :
    s.step e = (s.await (.call n) (.reading id .answer), [.read (.call n) id]) := by
  cases h with
  | refresh =>
    rw [Service.step, whenFree_of_free hn]
    rfl
  | lookUp h =>
    have ht : s.cache.edges.touch id = s.cache.edges := by simp [Cache.Recent.touch, h]
    rw [Service.step, whenFree_of_free hn]
    simp only [Service.lookUp, Cache.getEdge, Cache.Recent.get, h, ht]
    rfl

theorem Fetched.none_iff {s : Service} {n : Nat} {id : EdgeId}
    {result : Except DirectoryError Directory.Record} {online : Bool} {r : Service × List Action}
    (h : Fetched s (.call n) .answer (.record (.call n) result online) r)
    (ht : s.task? (.call n) = some (.reading id .answer)) :
    r.2 = [.finish (.call n) (.edge none)] ↔ Failed id result := by
  have hid {other : EdgeId} (ho : s.task? (.call n) = some (.reading other .answer)) :
      other = id := by
    rw [ht] at ho
    injection ho with ho
    injection ho with ho
    exact ho.symm
  have hgood {reply : Directory.Record} {record : EdgeRecord}
      (hr : EdgeRecord.decodeFor record.id reply = .ok record) (hrecord : record.id = id) :
      ¬ Failed id (.ok reply) := by
    intro hf
    obtain ⟨e, he⟩ := failed_iff_decodeFor.mp hf
    rw [← hrecord, hr] at he
    cases he
  cases h with
  | failed ht' hf => exact iff_of_true rfl (hid ht' ▸ hf)
  | begun ht' hr h =>
    apply iff_of_false
    · intro hc
      cases hc
    · exact hgood hr (hid ht')
  | made ht' hr h =>
    apply iff_of_false
    · intro hc
      cases hc
    · exact hgood hr (hid ht')

/-- A call reads an edge: `s` is the service when it asks for it and `asked` what it does then; `s'` is
the service when the reply comes, after some events for others, and `answered` what it does then. -/
structure Harmless (n : Nat) (id : EdgeId) (s : Service) (asked : Service × List Action)
    (others : List Event) (s' : Service) (answered : Service × List Action) : Prop where
  /-- There is one read. -/
  asks : asked.2 = [.read (.call n) id] ∧ Traceless s asked
  /-- The call waits for it, whatever the others do. -/
  waits : s'.task? (.call n) = some (.reading id .answer)
  /-- When it has failed the answer is nothing, and nothing else happens. -/
  answers : answered.2 = [.finish (.call n) (.edge none)] ∧ Traceless s' answered
  /-- An edge at hand that is current stays so, and its changes are written. -/
  keeps : ∀ edge ref, s'.cache.edges.peek? edge = some ref → s'.Current edge ref →
    answered.1.cache.edges.peek? edge = some ref ∧ answered.1.Live edge ref
  /-- The service is the one that it would be without the call, and the others have done the same. -/
  unnoticed : answered.1 = s.run others ∧
    (asked.1.moments others).map Moment.actions = (s.moments others).map Moment.actions
  /-- Any other reply has an answer, or waits for the activation. -/
  only : ∀ result online, (s'.step (.record (.call n) result online)).2 =
    [.finish (.call n) (.edge none)] ↔ Failed id result
  /-- Whatever else an edge is read for, it is gone on with in the service as it was. -/
  resumes : ∀ t other purpose result online, s'.task? t = some (.reading other purpose) →
    Failed other result → s'.step (.record t result online) = s'.resume t none purpose

/-- A refresh that fails changes nothing, whatever others do in the meantime. -/
theorem harmless_run {settings : Settings} {before others : List Event} {n : Nat} {id : EdgeId}
    {e : Event} (hn : ((start settings).run before).task? (.call n) = none)
    (he : Asks ((start settings).run before) n id e)
    (ho : ∀ e ∈ others, e.ticket? ≠ some (.call n))
    {result : Except DirectoryError Directory.Record} (hf : Failed id result) (online : Bool) :
    Harmless n id ((start settings).run before) (((start settings).run before).step e) others
      ((start settings).run (before ++ e :: others))
      (((start settings).run (before ++ e :: others)).step (.record (.call n) result online)) := by
  have ha' := aligned_run settings (before ++ [e])
  have hs' := suited_run settings (before ++ [e])
  have hrun : (start settings).run (before ++ e :: others) =
      (((start settings).run before).step e).1.run others := by
    rw [run_append]
    rfl
  rw [run_concat] at ha' hs'
  rw [hrun]
  generalize (start settings).run before = s at hn he ha' hs' ⊢
  have hasked := he.step hn
  have hwaits : ((s.step e).1.run others).task? (.call n) = some (.reading id .answer) := by
    rw [task?_call_run ha' hs' ho, hasked]
    exact task?_await_self _ _ _
  have hresumes (t : Ticket) (other : EdgeId) (purpose : Purpose)
      (result : Except DirectoryError Directory.Record) (online : Bool)
      (ht : ((s.step e).1.run others).task? t = some (.reading other purpose))
      (hf : Failed other result) :
      ((s.step e).1.run others).step (.record t result online) =
        ((s.step e).1.run others).resume t none purpose := by
    rw [step, ht]
    exact recordRead_of_failed _ t purpose hf online
  have hanswered := hresumes _ _ _ _ online hwaits hf
  refine ⟨?_, hwaits, ?_, ?_, ?_, ?_, hresumes⟩
  · rw [hasked]
    exact ⟨rfl, rfl, rfl, rfl, rfl, rfl, rfl⟩
  · rw [hanswered]
    exact ⟨rfl, rfl, rfl, rfl, rfl, rfl, rfl⟩
  · rw [hanswered]
    intro edge ref hp hc
    exact ⟨hp, live_iff_current.mpr hc⟩
  · rw [hanswered, hasked]
    exact run_await hn _ ho
  · intro result online
    exact (fetched_record hwaits result online).none_iff hwaits

/-- An edge is at hand. -/
def firstRead : List Event :=
  [.lookUp 0 edgeOne, .record (.call 0) (.ok (recordOf edgeOne .active)) true]

/-- Another edge is looked up and read. -/
def otherRead : List Event :=
  [.lookUp 2 edgeTwo, .record (.call 2) (.ok (recordOf edgeTwo .active)) true]

/-- Meanwhile the edge at hand is refreshed, and the reply is the record of the other one. -/
theorem harmless_foreignReply :
    Failed edgeOne (.ok (recordOf edgeTwo .active)) ∧
      Harmless 1 edgeOne ((start {}).run firstRead)
        (((start {}).run firstRead).step (.refresh 1 edgeOne)) otherRead
        ((start {}).run (firstRead ++ .refresh 1 edgeOne :: otherRead))
        (((start {}).run (firstRead ++ .refresh 1 edgeOne :: otherRead)).step
          (.record (.call 1) (.ok (recordOf edgeTwo .active)) true)) ∧
      (((start {}).run firstRead).run otherRead).cache.edges.peek? edgeOne = some 0 := by
  have hf : Failed edgeOne (.ok (recordOf edgeTwo .active)) := failed_iff_decodeFor.mpr ⟨_, rfl⟩
  have ho : ∀ e ∈ otherRead, e.ticket? ≠ some (.call 1) := by
    simp [otherRead, Event.ticket?]
  exact ⟨hf, harmless_run rfl .refresh ho hf true, rfl⟩

end EdgeFleet.Service
