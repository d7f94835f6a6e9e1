import EdgeFleet.Proofs.Service.Succession

namespace EdgeFleet

def Instance.updateAll (i : Instance) (us : List Edge.Update) : Instance :=
  us.foldl (fun i u => { i with edge := (i.edge.update u).1 }) i

theorem Instance.updateAll_concat (i : Instance) (us : List Edge.Update) (u : Edge.Update) :
    i.updateAll (us ++ [u]) =
      { i.updateAll us with edge := ((i.updateAll us).edge.update u).1 } := by
  simp [updateAll]

namespace Service

/-- The updates of an instance during a run, in order. -/
def updates (ref : EdgeRef) (ms : List Moment) : List Edge.Update :=
  ms.filterMap fun m =>
    (m.before.updated? m.event).bind fun (other, u) => if other = ref then some u else none

/-- The instance was made of a record of its edge, which came for a reading of that edge, and has been
updated since. -/
def Origin (ms : List Moment) (ref : EdgeRef) (i : Instance) : Prop :=
  ∃ before m after t purpose record online, ms = before ++ m :: after ∧
    m.before.Decodes m.event t purpose record online ∧ record.id = i.edge.id ∧
    ref = m.before.instances.length ∧
    i = (m.before.instanceOf record online).updateAll (updates ref after)

theorem updates_append (ref : EdgeRef) (ms more : List Moment) :
    updates ref (ms ++ more) = updates ref ms ++ updates ref more := List.filterMap_append

theorem Origin.concat {ms : List Moment} {ref : EdgeRef} {i : Instance} (ho : Origin ms ref i)
    {s : Service} {e : Event} (hu : ∀ u, s.updated? e ≠ some (ref, u)) :
    Origin (ms ++ [⟨s, e⟩]) ref i := by
  obtain ⟨before, m, after, t, purpose, record, online, rfl, hd, hid, hr, hi⟩ := ho
  refine ⟨before, m, after ++ [⟨s, e⟩], t, purpose, record, online, by simp, hd, hid, hr, ?_⟩
  have hnone : updates ref [⟨s, e⟩] = [] := by
    cases h : s.updated? e with
    | none => simp [updates, h]
    | some p =>
      have hne : p.1 ≠ ref := fun he => hu p.2 (he ▸ h)
      simp [updates, h, hne]
  rw [updates_append, hnone, List.append_nil]
  exact hi

theorem Origin.update {ms : List Moment} {ref : EdgeRef} {i : Instance} (ho : Origin ms ref i)
    {s : Service} {e : Event} {u : Edge.Update} (hu : s.updated? e = some (ref, u)) :
    Origin (ms ++ [⟨s, e⟩]) ref { i with edge := (i.edge.update u).1 } := by
  obtain ⟨before, m, after, t, purpose, record, online, rfl, hd, hid, hr, hi⟩ := ho
  refine ⟨before, m, after ++ [⟨s, e⟩], t, purpose, record, online, by simp, hd, ?_, hr, ?_⟩
  · rw [Edge.id_update, hid]
  · have hone : updates ref [⟨s, e⟩] = [u] := by simp [updates, hu]
    rw [updates_append, hone, Instance.updateAll_concat, ← hi]

theorem origin_instanceOf (ms : List Moment) {s : Service} {e : Event} {t : Ticket}
    {purpose : Purpose} {record : EdgeRecord} {online : Bool}
    (hd : s.Decodes e t purpose record online) :
    Origin (ms ++ [⟨s, e⟩]) s.instances.length (s.instanceOf record online) :=
  ⟨ms, ⟨s, e⟩, [], t, purpose, record, online, rfl, hd, (id_instanceOf s record online).symm, rfl,
    rfl⟩

theorem origin_turn {ms : List Moment} {s s' : Service} {e : Event} (h : Turn s e s')
    (ho : ∀ ref i, s.instance? ref = some i → Origin ms ref i) (ref : EdgeRef) (i : Instance)
    (hi : s'.instance? ref = some i) : Origin (ms ++ [⟨s, e⟩]) ref i := by
  have hold (hu : s.updated? e = none) (hs : s'.instance? ref = s.instance? ref) :
      Origin (ms ++ [⟨s, e⟩]) ref i := by
    refine (ho ref i (hs ▸ hi)).concat fun u he => ?_
    rw [hu] at he
    cases he
  have hnew {t : Ticket} {purpose : Purpose} {record : EdgeRecord} {online : Bool}
      (hd : s.Decodes e t purpose record online)
      (hs : s'.instance? ref = (s.withActivation t purpose record online).instance? ref) :
      Origin (ms ++ [⟨s, e⟩]) ref i := by
    rw [instance?_withActivation] at hs
    split at hs
    · rename_i hr
      rw [hs] at hi
      cases hi
      rw [hr]
      exact origin_instanceOf ms hd
    · obtain ⟨-, reply, -, rfl⟩ := hd
      exact hold rfl hs
  cases h with
  | quiet hs hg hu h => exact hold hu (by rw [instance?, h.instances, instance?])
  | @updated n other u j he hu hj h =>
    have hs : s'.instance? ref = (s.withUpdate other j u).instance? ref := by
      rw [instance?, h.instances, instance?]
    rw [hi, instance?_withUpdate s hj] at hs
    split at hs
    · rename_i hr
      cases hs
      rw [hr]
      exact (ho other j hj).update hu
    · rename_i hr
      refine (ho ref i hs.symm).concat fun u' he => ?_
      rw [hu] at he
      cases he
      exact hr rfl
  | dropped he h => exact hold (he ▸ rfl) (by rw [instance?, h.instances]; rfl)
  | begun hd hs h => exact hnew hd (by rw [instance?, h.instances, instance?])
  | renewed hd hs h => exact hnew hd (by rw [instance?, h.instances]; rfl)
  | installed he ht hj hc hs h => exact hold (he ▸ rfl) (by rw [instance?, h.instances]; rfl)
  | found he ht hj hc hn hs h => exact hold (he ▸ rfl) (by rw [instance?, h.instances]; rfl)
  | superseded he ht hj hc hs h => exact hold (he ▸ rfl) (by rw [instance?, h.instances]; rfl)

theorem origin_run (settings : Settings) (es : List Event) (ref : EdgeRef) (i : Instance)
    (hi : ((start settings).run es).instance? ref = some i) :
    Origin ((start settings).moments es) ref i := by
  refine run_induct (P := fun ms s => ∀ ref i, s.instance? ref = some i → Origin ms ref i) es ?_ ?_
    ref i hi
  · intro ref i h
    cases h
  · intro ms s e _ ha ho
    exact origin_turn (turn_step ha e) ho

theorem Turn.last_le {s s' : Service} {e : Event} (h : Turn s e s') (id : EdgeId) :
    s.generations.last id ≤ s'.generations.last id := by
  have hsame (hg : s'.generations = s.generations) :
      s.generations.last id ≤ s'.generations.last id :=
    Nat.le_of_eq (by rw [hg])
  cases h with
  | quiet hs hg hu h => exact hsame h.generations
  | updated he hu hi h => exact hsame h.generations
  | dropped he h => exact hsame h.generations
  | @begun t purpose record online hd hs h =>
    rw [h.generations]
    exact last_le_withActivation purpose record online id
  | @renewed t purpose record online hd hs h =>
    rw [h.generations]
    exact last_le_withActivation (t := t) purpose record online id
  | installed he ht hi hc hs h => exact hsame h.generations
  | found he ht hi hc hn hs h => exact hsame h.generations
  | superseded he ht hi hc hs h => exact hsame h.generations

theorem last_step_pos {s : Service} (ha : Aligned s) {e : Event} {t : Ticket} {purpose : Purpose}
    {record : EdgeRecord} {online : Bool} (hd : s.Decodes e t purpose record online) :
    0 < (s.step e).1.generations.last record.id := by
  obtain ⟨ht, reply, hr, rfl⟩ := hd
  have hs : s.step (.record t (.ok reply) online) = s.buildInstance t record online purpose := by
    simp only [step, ht, recordRead, hr]
  have hg : (s.buildInstance t record online purpose).1.generations =
      (s.generations.advance record.id).1 := by
    by_cases h : online = true ∧ record.state = .inactive
    · rw [buildInstance_begun s t record online purpose h]
      rfl
    · exact (keeps_buildInstance ha ht online h).generations
  rw [hs, hg, Generations.last_advance_self]
  exact Nat.succ_pos _

/-- Once a record of an edge has come, the edge has a generation. -/
theorem last_run_pos (settings : Settings) (es : List Event) {m : Moment}
    (hm : m ∈ (start settings).moments es) {t : Ticket} {purpose : Purpose} {record : EdgeRecord}
    {online : Bool} (hd : m.before.Decodes m.event t purpose record online) :
    0 < ((start settings).run es).generations.last record.id := by
  refine run_induct (P := fun ms s => ∀ m ∈ ms, ∀ t purpose record online,
    m.before.Decodes m.event t purpose record online → 0 < s.generations.last record.id) es
    (fun _ h => absurd h List.not_mem_nil) ?_ m hm t purpose record online hd
  intro ms s e _ ha ih m hm t purpose record online hd
  rcases List.mem_append.mp hm with hm | hm
  · exact Nat.lt_of_lt_of_le (ih m hm t purpose record online hd) ((turn_step ha e).last_le _)
  · rw [List.mem_singleton.mp hm] at hd
    exact last_step_pos ha hd

end Service

end EdgeFleet
