import EdgeFleet.Proofs.Edge.Activation
import EdgeFleet.Proofs.Service.Arrival

namespace EdgeFleet.Service

/-- The calls that set something on an instance during a run, in order. -/
def callsOn (ref : EdgeRef) (ms : List Moment) : List SetterCall :=
  ms.filterMap fun m => m.setterCall?.filter (·.ref = ref)

def SetterCall.notice? (c : SetterCall) : Option Edge.Notice := (c.before.update c.update).2

theorem callsOn_concat (ref : EdgeRef) (ms : List Moment) (s : Service) (e : Event) :
    callsOn ref (ms ++ [⟨s, e⟩]) = callsOn ref ms ++ ((s.setterCall? e).filter (·.ref = ref)).toList := by
  rw [callsOn, List.filterMap_append, ← callsOn]
  exact congrArg _ (filterMap_toList _ (some (⟨s, e⟩ : Moment)))

/-- The history of an instance: the record that it was made of, what was said of the connection then, and
the calls since. -/
structure History (ms : List Moment) (ref : EdgeRef) (i : Instance) (record : EdgeRecord)
    (online : Bool) : Prop where
  decoded : ∃ m ∈ ms, ∃ t purpose, m.before.Decodes m.event t purpose record online
  first : ((callsOn ref ms).map (·.update)).head? = some (.online online)
  edge : i.edge = (Edge.ofRecord record).after ((callsOn ref ms).map (·.update))
  notices : (callsOn ref ms).filterMap SetterCall.notice? =
    (Edge.ofRecord record).log ((callsOn ref ms).map (·.update))

theorem History.congr {ms more : List Moment} {ref : EdgeRef} {i : Instance} {record : EdgeRecord}
    {online : Bool} (h : History ms ref i record online) (hm : callsOn ref (ms ++ more) = callsOn ref ms) :
    History (ms ++ more) ref i record online := by
  obtain ⟨m, hmem, hdecodes⟩ := h.decoded
  refine ⟨⟨m, List.mem_append_left _ hmem, hdecodes⟩, ?_, ?_, ?_⟩
  · rw [hm]
    exact h.first
  · rw [hm]
    exact h.edge
  · rw [hm]
    exact h.notices

section Step

variable {ms : List Moment} {s : Service} {e : Event} {c : SetterCall}

variable (ms) in
theorem callsOn_of_setter (hc : s.setterCall? e = some c) :
    callsOn c.ref (ms ++ [⟨s, e⟩]) = callsOn c.ref ms ++ [c] := by
  rw [callsOn_concat, hc]
  simp

theorem callsOn_of_ne {ref : EdgeRef} (h : ∀ c, s.setterCall? e = some c → c.ref ≠ ref) :
    callsOn ref (ms ++ [⟨s, e⟩]) = callsOn ref ms := by
  rw [callsOn_concat]
  cases hc : s.setterCall? e with
  | none => simp
  | some c => simp [h c hc]

theorem notices_concat (calls : List SetterCall) (c : SetterCall) :
    (calls ++ [c]).filterMap SetterCall.notice? =
      calls.filterMap SetterCall.notice? ++ c.before.log [c.update] := by
  rw [List.filterMap_append, Edge.log, Edge.log, List.append_nil]
  exact congrArg _ (filterMap_toList _ (some c))

theorem History.update {record : EdgeRecord} {online : Bool}
    (h : History ms c.ref ⟨c.before, c.generation⟩ record online) (hc : s.setterCall? e = some c) :
    History (ms ++ [⟨s, e⟩]) c.ref c.made record online := by
  obtain ⟨m, hmem, hdecodes⟩ := h.decoded
  have hedge : c.before = (Edge.ofRecord record).after ((callsOn c.ref ms).map (·.update)) := h.edge
  refine ⟨⟨m, List.mem_append_left _ hmem, hdecodes⟩, ?_, ?_, ?_⟩
  · rw [callsOn_of_setter ms hc, List.map_append, List.head?_append, h.first]
    rfl
  · rw [callsOn_of_setter ms hc, List.map_append, Edge.after_append, ← hedge]
    rfl
  · rw [callsOn_of_setter ms hc, List.map_append, Edge.log_append, ← hedge, ← h.notices, notices_concat]
    rfl

theorem history_made {t : Ticket} {purpose : Purpose} {record : EdgeRecord} {online : Bool}
    (hd : s.Decodes e t purpose record online) (hnone : callsOn s.instances.length ms = []) :
    History (ms ++ [⟨s, e⟩]) s.instances.length (s.firstCall record online).made record online := by
  have hcalls := callsOn_of_setter ms (setterCall?_of_decodes hd)
  change callsOn s.instances.length (ms ++ [⟨s, e⟩]) = callsOn s.instances.length ms ++ _ at hcalls
  rw [hnone] at hcalls
  refine ⟨⟨⟨s, e⟩, by simp, t, purpose, hd⟩, ?_, ?_, ?_⟩
  · rw [hcalls]
    rfl
  · rw [hcalls]
    rfl
  · rw [hcalls, notices_concat]
    rfl

end Step

/-- A number has no calls before its instance is made. -/
def Recorded (ms : List Moment) (s : Service) : Prop :=
  ∀ ref, match s.instance? ref with
    | none => callsOn ref ms = []
    | some i => ∃ record online, History ms ref i record online

theorem Recorded.step {ms : List Moment} {s : Service} (h : Recorded ms s) (e : Event) :
    Recorded (ms ++ [⟨s, e⟩]) (s.step e).1 := by
  intro ref
  by_cases hr : ∃ c, s.setterCall? e = some c ∧ c.ref = ref
  -- the call of this event is on the instance; all other numbers keep their calls
  · obtain ⟨c, hc, rfl⟩ := hr
    rw [(writes_of_setterCall hc).1.own]
    rcases source_of_setterCall hc with hi | ⟨t, purpose, record, online, hd, rfl⟩
    · have hold := h c.ref
      rw [hi] at hold
      obtain ⟨record, online, hold⟩ := hold
      exact ⟨record, online, hold.update hc⟩
    · have hold := h s.instances.length
      have hnew : s.instance? s.instances.length = none := by simp [instance?]
      rw [hnew] at hold
      exact ⟨record, online, history_made hd hold⟩
  · have hne (c : SetterCall) (hc : s.setterCall? e = some c) : c.ref ≠ ref :=
      fun he => hr ⟨c, hc, he⟩
    have hold := h ref
    rw [instance?_step_of_ne hne]
    cases hi : s.instance? ref with
    | none =>
      rw [hi] at hold
      exact (callsOn_of_ne hne).trans hold
    | some i =>
      rw [hi] at hold
      obtain ⟨record, online, hold⟩ := hold
      exact ⟨record, online, hold.congr (callsOn_of_ne hne)⟩

/-- Every instance has a history. -/
theorem history_run (settings : Settings) (es : List Event) {ref : EdgeRef} {i : Instance}
    (hi : ((start settings).run es).instance? ref = some i) :
    ∃ record online, History ((start settings).moments es) ref i record online := by
  have h : Recorded ((start settings).moments es) ((start settings).run es) := by
    refine run_induct es (fun ref => ?_) fun ms s e _ _ h => h.step e
    rfl
  have href := h ref
  rw [hi] at href
  exact href

end EdgeFleet.Service
