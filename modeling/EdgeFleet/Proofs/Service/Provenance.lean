import EdgeFleet.Proofs.Service.Issue

namespace EdgeFleet.Service

open Directory (Field)
open WriteBack (effect immediate?)

namespace Moment

def after (m : Moment) : Service := (m.before.step m.event).1

def actions (m : Moment) : List Action := (m.before.step m.event).2

def setterCall? (m : Moment) : Option SetterCall := m.before.setterCall? m.event

end Moment

/-- The update brings about a write in a service: its instance has the current generation there, and
the write gives its edge the text of what the update has changed. -/
structure SetterCall.Issues (c : SetterCall) (s : Service) (w : Directory.Write) : Prop where
  current : s.isCurrent c.made = true
  ids : w.ids = [c.after.id.value]
  field : w.field ∈ [Field.state, .version, .config, .soc, .ipv4]
  changed : c.before.Differ c.after w.field
  text : ∃ text, c.after.content? w.field = some text ∧ w.value = .text text

namespace SetterCall

theorem stores?_eq_some_iff {c : SetterCall} {generations : Generations} {field : Field}
    {value : Json} : c.stores? generations = some (field, value) ↔
      generations.isCurrent c.after.id c.generation = true ∧
        (c.before.update c.update).2.map effect = some (.store field value) := by
  cases hn : (c.before.update c.update).2 with
  | none => simp [stores?, hn]
  | some notice =>
    have hs : c.stores? generations =
        immediate? generations c.after.id c.generation (effect notice) := by
      simp only [stores?, hn, Option.bind_some]
    rw [hs, Option.map_some, Option.some.injEq]
    constructor
    · exact WriteBack.immediate?_eq_some
    · rintro ⟨hc, he⟩
      simp only [he, immediate?, hc, if_true]

/-- An update is written exactly if it changes a field of a current instance. -/
theorem mem_writes_iff {c : SetterCall} {s : Service} {w : Directory.Write} :
    w ∈ c.writes s.generations ↔ c.Issues s w := by
  constructor
  · intro hw
    cases hs : c.stores? s.generations with
    | none =>
      rw [writes_of_none hs] at hw
      cases hw
    | some p =>
      obtain ⟨field, value⟩ := p
      rw [writes_of_some hs] at hw
      obtain rfl := List.mem_singleton.mp hw
      obtain ⟨hc, he⟩ := stores?_eq_some_iff.mp hs
      obtain ⟨hd, ht⟩ := Edge.store_update_iff.mp he
      exact ⟨hc, rfl, Edge.field_of_differ hd, hd, ht⟩
  · rintro ⟨hc, hids, -, hd, ht⟩
    have he := Edge.store_update_iff.mpr ⟨hd, ht⟩
    rw [writes_of_some (stores?_eq_some_iff.mpr ⟨hc, he⟩), ← hids]
    exact List.mem_singleton_self w

theorem length_writes_le (c : SetterCall) (generations : Generations) :
    (c.writes generations).length ≤ 1 := by
  unfold writes
  split
  · exact Nat.le_refl 1
  · exact Nat.zero_le 1

/-- What is changed while its instance is current is written as what it has become, and nothing else. -/
theorem exists_writes_eq {c : SetterCall} {s : Service} {field : Field}
    (hc : s.isCurrent c.made = true) (hd : c.before.Differ c.after field) :
    ∃ text, c.after.content? field = some text ∧
      c.writes s.generations = [⟨[c.after.id.value], field, .text text⟩] := by
  obtain ⟨text, ht⟩ := Edge.content?_update_of_differ hd
  have hmem : ⟨[c.after.id.value], field, .text text⟩ ∈ c.writes s.generations :=
    mem_writes_iff.mpr ⟨hc, rfl, Edge.field_of_differ hd, hd, text, ht, rfl⟩
  have hlength : (c.writes s.generations).length = 1 := by
    apply Nat.le_antisymm
    · exact c.length_writes_le _
    · exact List.length_pos_of_mem hmem
  obtain ⟨w, hw⟩ := List.length_eq_one_iff.mp hlength
  rw [hw, List.mem_singleton] at hmem
  exact ⟨text, ht, by rw [hw, hmem]⟩

end SetterCall

/-- The batches under way are batches of moments. -/
def Stamps (w : WriteBack.Worker) : Prop :=
  ∀ owner, ∀ b ∈ w.outstanding owner, ∃ signal : WriteBack.Signal, b.field = signal.field

theorem Stamps.step {w : WriteBack.Worker} (h : Stamps w) (e : WriteBack.Worker.Event) :
    Stamps (w.step e).1 := by
  intro owner b hb
  rcases WriteBack.Worker.mem_outstanding_of_step hb with hb | ⟨now, hb⟩
  · exact h owner b hb
  · exact WriteBack.Pending.signal_of_mem_batches hb

theorem stamps_step {s : Service} (h : Stamps s.worker) (e : Event) : Stamps (s.step e).1.worker := by
  have hi := issue_step s e
  generalize s.step e = r at hi ⊢
  cases hi with
  | silent hc hs => exact hs.worker ▸ h
  | setter c hc hi hw hk =>
    rcases hk with hk | ⟨signal, hk⟩
    · exact hk ▸ h
    · exact hk ▸ h.step _
  | worker we he hr => exact hr ▸ h.step we

theorem stamps_of_mem_moments {settings : Settings} {es : List Event} {m : Moment}
    (hm : m ∈ (start settings).moments es) : Stamps m.before.worker := by
  refine (run_induct (P := fun ms s => Stamps s.worker ∧ ∀ m ∈ ms, Stamps m.before.worker) es ?_
    ?_).2 m hm
  · refine ⟨fun owner b hb => ?_, fun _ h => absurd h List.not_mem_nil⟩
    cases owner <;> cases hb
  · rintro ms s e _ - ⟨hs, hms⟩
    refine ⟨stamps_step hs e, fun m hm => ?_⟩
    rcases List.mem_append.mp hm with hm | hm
    · exact hms m hm
    · rw [List.mem_singleton.mp hm]
      exact hs

/-- A write is that of the event's update or a batch of the worker. -/
theorem source_of_write {s : Service} (hk : Stamps s.worker) {e : Event} {a : Action}
    {w : Directory.Write} (ha : a ∈ (s.step e).2) (hw : a.write? = some w) :
    (∃ c, s.setterCall? e = some c ∧ c.Issues (s.step e).1 w) ∨
      ∃ owner b, a = .writeBatch owner b ∧ ∃ signal : WriteBack.Signal, b.field = signal.field := by
  have hmem : w ∈ writesOf (s.step e).2 := List.mem_filterMap.mpr ⟨a, ha, hw⟩
  have hi := issue_step s e
  generalize s.step e = r at hi ha hmem ⊢
  cases hi with
  | silent hc hs =>
    rw [hs.writes] at hmem
    cases hmem
  | setter c hc hi hws hk' =>
    rw [hws] at hmem
    exact Or.inl ⟨c, hc, SetterCall.mem_writes_iff.mp hmem⟩
  | worker we he hr =>
    subst hr
    obtain ⟨wa, hwa, rfl⟩ := List.mem_map.mp ha
    cases wa with
    | write owner b =>
      exact Or.inr ⟨owner, b, rfl, hk.step we owner b (WriteBack.Worker.mem_outstanding_step hwa)⟩
    | ended call => cases hw

theorem writes_of_setterCall {s : Service} {e : Event} {c : SetterCall}
    (hc : s.setterCall? e = some c) :
    c.Stored s (s.step e).1 ∧ writesOf (s.step e).2 = c.writes (s.step e).1.generations := by
  have hi := issue_step s e
  generalize s.step e = r at hi ⊢
  cases hi with
  | silent hn hs =>
    rw [hc] at hn
    cases hn
  | setter c' hc' hi hw hk =>
    rw [hc] at hc'
    cases hc'
    exact ⟨hi, hw⟩
  | worker we he hr =>
    rw [he] at hc
    cases hc

/-- The update of a moment, if it is written. -/
def Moment.issuer? (m : Moment) : Option SetterCall :=
  m.setterCall?.filter fun _ => !(writesOf m.actions).isEmpty

/-- The updates that were written, in order. -/
def issuers (ms : List Moment) : List SetterCall := ms.filterMap Moment.issuer?

/-- The writes of a run and what they come from. -/
structure Provenance (ms : List Moment) : Prop where
  /-- A write is that of an update of a current instance or a batch of moments. -/
  sources : ∀ m ∈ ms, ∀ a ∈ m.actions, ∀ w, a.write? = some w →
    (∃ c, m.setterCall? = some c ∧ c.Issues m.after w) ∨
      ∃ owner b, a = .writeBatch owner b ∧ (b.field = .lastMessage ∨ b.field = .lastUpdate)
  /-- An update is held by its instance from then on, and by no other. -/
  held : ∀ m ∈ ms, ∀ c, m.setterCall? = some c → c.Stored m.before m.after
  /-- It is written once, if it changes a field and its instance is current, and else never. -/
  once : ∀ m ∈ ms, ∀ c, m.setterCall? = some c → (writesOf m.actions).length ≤ 1 ∧
    (writesOf m.actions ≠ [] ↔
      m.after.isCurrent c.made = true ∧ ∃ field, c.before.Differ c.after field)
  /-- The generations of the instances that are written never decrease. -/
  rising : ∀ id, ((issuers ms).filter (·.after.id = id)).Pairwise (·.generation ≤ ·.generation)
  /-- No other field is ever written. -/
  fields : ∀ m ∈ ms, ∀ w ∈ writesOf m.actions,
    w.field ∈ [Field.state, .version, .config, .soc, .ipv4, .lastMessage, .lastUpdate]

theorem writes_ne_nil_iff (c : SetterCall) (s : Service) :
    c.writes s.generations ≠ [] ↔
      s.isCurrent c.made = true ∧ ∃ field, c.before.Differ c.after field := by
  constructor
  · intro hne
    obtain ⟨w, hw⟩ := List.exists_mem_of_ne_nil _ hne
    have hi := SetterCall.mem_writes_iff.mp hw
    exact ⟨hi.current, w.field, hi.changed⟩
  · rintro ⟨hc, field, hd⟩
    obtain ⟨text, -, hw⟩ := SetterCall.exists_writes_eq hc hd
    rw [hw]
    exact List.cons_ne_nil _ _

theorem issuers_concat (ms : List Moment) (m : Moment) :
    issuers (ms ++ [m]) = issuers ms ++ m.issuer?.toList := by
  simp only [issuers, List.filterMap_append, List.filterMap_cons, List.filterMap_nil]
  cases m.issuer? <;> rfl

theorem generation_of_issuer {m : Moment} {c : SetterCall} (hc : m.issuer? = some c) :
    c.generation = m.after.generations.last c.after.id := by
  obtain ⟨hc, hne⟩ := Option.filter_eq_some_iff.mp hc
  have hw : writesOf m.actions = c.writes m.after.generations := (writes_of_setterCall hc).2
  have hn : c.writes m.after.generations ≠ [] := by
    intro he
    rw [hw, he] at hne
    cases hne
  have hcur := ((writes_ne_nil_iff c _).mp hn).1
  exact (Generations.last_of_isCurrent hcur).symm

theorem rising_run (settings : Settings) (es : List Event) (id : EdgeId) :
    ((issuers ((start settings).moments es)).filter (·.after.id = id)).Pairwise
      (·.generation ≤ ·.generation) := by
  -- all generations so far are at most the latest one
  refine (run_induct (P := fun ms s =>
    (∀ c ∈ (issuers ms).filter (·.after.id = id), c.generation ≤ s.generations.last id) ∧
      ((issuers ms).filter (·.after.id = id)).Pairwise (·.generation ≤ ·.generation)) es ?_ ?_).2
  · exact ⟨fun _ h => absurd h List.not_mem_nil, List.Pairwise.nil⟩
  · rintro ms s e _ ha ⟨hle, hp⟩
    have hlast := (turn_step ha e).last_le id
    have hold (c : SetterCall) (hc : c ∈ (issuers ms).filter (·.after.id = id)) :
        c.generation ≤ (s.step e).1.generations.last id := Nat.le_trans (hle c hc) hlast
    have hnew (c : SetterCall)
        (hc : c ∈ (Moment.issuer? ⟨s, e⟩).toList.filter (·.after.id = id)) :
        c.generation = (s.step e).1.generations.last id := by
      obtain ⟨hc, hid⟩ := List.mem_filter.mp hc
      rw [← of_decide_eq_true hid]
      exact generation_of_issuer (Option.mem_toList.mp hc)
    rw [issuers_concat, List.filter_append]
    constructor
    · intro c hc
      rcases List.mem_append.mp hc with hc | hc
      · exact hold c hc
      · exact Nat.le_of_eq (hnew c hc)
    · refine List.pairwise_append.mpr ⟨hp, ?_, fun c hc d hd => ?_⟩
      · cases Moment.issuer? ⟨s, e⟩ with
        | none => exact List.Pairwise.nil
        | some c => exact (List.pairwise_singleton _ c).filter _
      · exact Nat.le_trans (hold c hc) (Nat.le_of_eq (hnew d hd).symm)

/-- Every write has its source, whatever happens. -/
theorem provenance_run (settings : Settings) (es : List Event) :
    Provenance ((start settings).moments es) := by
  have hsource (m : Moment) (hm : m ∈ (start settings).moments es) (a : Action)
      (ha : a ∈ m.actions) (w : Directory.Write) (hw : a.write? = some w) :=
    source_of_write (stamps_of_mem_moments hm) ha hw
  refine ⟨?_, ?_, ?_, rising_run settings es, ?_⟩
  · intro m hm a ha w hw
    rcases hsource m hm a ha w hw with hc | ⟨owner, b, hb, signal, hf⟩
    · exact Or.inl hc
    · refine Or.inr ⟨owner, b, hb, ?_⟩
      cases signal with
      | message => exact Or.inl hf
      | data => exact Or.inr hf
  · intro m _ c hc
    exact (writes_of_setterCall hc).1
  · intro m _ c hc
    have hw : writesOf m.actions = c.writes m.after.generations := (writes_of_setterCall hc).2
    rw [hw]
    exact ⟨c.length_writes_le _, writes_ne_nil_iff c m.after⟩
  · intro m hm w hw
    obtain ⟨a, ha, hw⟩ := List.mem_filterMap.mp hw
    rcases hsource m hm a ha w hw with ⟨c, -, hi⟩ | ⟨owner, b, rfl, signal, hf⟩
    · have hfield := hi.field
      simp only [List.mem_cons, List.not_mem_nil, or_false] at hfield ⊢
      tauto
    · cases hw
      cases signal with
      | message => simp [hf, WriteBack.Signal.field]
      | data => simp [hf, WriteBack.Signal.field]

end EdgeFleet.Service
