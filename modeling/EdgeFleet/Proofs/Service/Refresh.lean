import EdgeFleet.Proofs.Service.Run

/-! Refreshes as seen by each other. Of an instance only the edge and the generation count, of a task only
the instance whose activation is being written, and a turn is made of a few changes of these. -/
namespace EdgeFleet.Service

open Cache.Recent (Used)

/-- The edge and the generation of an instance. -/
def stamp? (s : Service) (ref : EdgeRef) : Option (EdgeId × Nat) :=
  (s.instance? ref).map fun i => (i.edge.id, i.generation)

theorem stamp?_of_instance? {s : Service} {ref : EdgeRef} {i : Instance}
    (hi : s.instance? ref = some i) : s.stamp? ref = some (i.edge.id, i.generation) := by
  rw [stamp?, hi, Option.map_some]

theorem instance?_of_stamp? {s : Service} {ref : EdgeRef} {id : EdgeId} {g : Nat}
    (h : s.stamp? ref = some (id, g)) :
    ∃ i, s.instance? ref = some i ∧ i.edge.id = id ∧ i.generation = g := by
  obtain ⟨i, hi, hp⟩ := Option.map_eq_some_iff.mp h
  exact ⟨i, hi, Prod.mk.inj hp⟩

theorem stamp?_length (s : Service) : s.stamp? s.instances.length = none := by
  simp [stamp?, instance?]

theorem stamp?_withActivation (s : Service) (t : Ticket) (purpose : Purpose) (record : EdgeRecord)
    (online : Bool) (ref : EdgeRef) :
    (s.withActivation t purpose record online).stamp? ref =
      if ref = s.instances.length then some (record.id, (s.generations.advance record.id).2)
      else s.stamp? ref := by
  rw [stamp?, instance?_withActivation]
  split
  · rw [Option.map_some, id_instanceOf]
    rfl
  · rfl

theorem stamp?_withUpdate (s : Service) {ref : EdgeRef} {i : Instance}
    (hi : s.instance? ref = some i) (u : Edge.Update) (other : EdgeRef) :
    (s.withUpdate ref i u).stamp? other = s.stamp? other := by
  rw [stamp?, instance?_withUpdate s hi]
  split
  · rename_i ho
    rw [Option.map_some, Edge.id_update, ho, stamp?_of_instance? hi]
  · rfl

theorem writing?_eq_some {s : Service} {t : Ticket} {ref : EdgeRef} :
    s.writing? t = some ref ↔ ∃ purpose, s.task? t = some (.activating ref purpose) := by
  unfold writing?
  constructor
  · intro h
    split at h
    · rename_i ref' purpose ht
      cases h
      exact ⟨purpose, ht⟩
    · cases h
  · rintro ⟨purpose, ht⟩
    rw [ht]

theorem writing?_of_reading {s : Service} {t : Ticket} {id : EdgeId} {purpose : Purpose}
    (ht : s.task? t = some (.reading id purpose)) : s.writing? t = none := by
  rw [writing?, ht]

theorem writing?_close (s : Service) (t other : Ticket) :
    (s.close t).writing? other = if other = t then none else s.writing? other := by
  rw [writing?, task?_close]
  by_cases h : other = t
  · rw [if_pos h, if_pos h]
  · rw [if_neg h, if_neg h, writing?]

theorem writing?_withActivation (s : Service) (t : Ticket) (purpose : Purpose)
    (record : EdgeRecord) (online : Bool) (other : Ticket) :
    (s.withActivation t purpose record online).writing? other =
      if other = t then some s.instances.length else s.writing? other := by
  have ht : (s.withActivation t purpose record online).task? other =
      if other = t then some (.activating s.instances.length purpose) else s.task? other :=
    task?_await _ _ _ _
  rw [writing?, ht]
  by_cases h : other = t
  · rw [if_pos h, if_pos h]
  · rw [if_neg h, if_neg h, writing?]

/-- Refreshes see no difference, up to uses of edges. -/
structure Same (s s' : Service) : Prop where
  stamps : ∀ ref, s'.stamp? ref = s.stamp? ref
  generations : s'.generations = s.generations
  edges : Used s.cache.edges s'.cache.edges
  writing : ∀ t, s'.writing? t = s.writing? t

theorem Quiet.same {s s' : Service} (h : Quiet s s') : Same s s' := by
  refine ⟨fun ref => by rw [stamp?, instance?, h.instances]; rfl, h.generations, h.edges, ?_⟩
  intro t
  cases hw : s.writing? t with
  | some ref =>
    obtain ⟨p, ht⟩ := writing?_eq_some.mp hw
    exact writing?_eq_some.mpr ⟨p, h.kept t ref p ht⟩
  | none =>
    cases hw' : s'.writing? t with
    | none => rfl
    | some ref =>
      obtain ⟨p, ht⟩ := writing?_eq_some.mp hw'
      rcases h.begun _ _ ht with ht | ho
      · rw [writing?_eq_some.mpr ⟨p, ht⟩] at hw
        cases hw
      · exact ho.elim

theorem same_withUpdate (s : Service) {ref : EdgeRef} {i : Instance}
    (hi : s.instance? ref = some i) (u : Edge.Update) : Same s (s.withUpdate ref i u) :=
  ⟨stamp?_withUpdate s hi u, rfl, .refl, fun _ => rfl⟩

theorem same_close {s : Service} {t : Ticket} (ht : s.writing? t = none) : Same s (s.close t) := by
  refine ⟨fun _ => rfl, rfl, .refl, fun other => ?_⟩
  rw [writing?_close]
  split
  · rename_i ho
    rw [ho, ht]
  · rfl

/-- What can be put into the cache: a current instance, or a superseded one if there is none of the
edge. -/
structure Store.Fits (σ : Store) (s : Service) : Prop where
  stamp : s.stamp? σ.ref = some (σ.id, σ.generation)
  current : s.generations.isCurrent σ.id σ.generation = !σ.late
  absent : σ.late = true → s.cache.edges.peek? σ.id = none

/-- A property of the service, of what has been put into its cache and of what has been given up,
that each change keeps that a turn is made of. -/
structure Stable (P : List Store → List EdgeRef → Service → Prop) : Prop where
  same : ∀ {σs gone s s'}, P σs gone s → Same s s' → P σs gone s'
  activation : ∀ {σs gone s t}, P σs gone s → s.writing? t = none →
    ∀ purpose record online, P σs gone (s.withActivation t purpose record online)
  store : ∀ {σs gone s t} {σ : Store}, P σs gone s → s.writing? t = some σ.ref → σ.Fits s →
    P (σs ++ [σ]) gone ((s.close t).withStore σ.id σ.ref)
  superseded : ∀ {σs gone s t ref id g}, P σs gone s → s.writing? t = some ref →
    s.stamp? ref = some (id, g) → s.generations.isCurrent id g = false → P σs gone (s.close t)
  abandoned : ∀ {σs gone s t ref}, P σs gone s → s.writing? t = some ref →
    P σs (gone ++ [ref]) (s.close t)

theorem fits_withActivation (s : Service) (t : Ticket) (purpose : Purpose) (record : EdgeRecord)
    (online : Bool) :
    Store.Fits ⟨record.id, s.instances.length, (s.generations.advance record.id).2, false⟩
      (s.withActivation t purpose record online) := by
  refine ⟨?_, (Generations.isCurrent_advance_self s.generations record.id _).mpr rfl,
    Bool.noConfusion⟩
  rw [stamp?_withActivation, if_pos rfl]

theorem Stable.turn {P : List Store → List EdgeRef → Service → Prop} (hP : Stable P)
    {σs : List Store} {gone : List EdgeRef} {s s' : Service} {e : Event} (hp : P σs gone s)
    (h : Turn s e s') :
    P (σs ++ (s.stored? e).toList) (gone ++ (s.abandoned? e).toList) s' := by
  cases h with
  | quiet hs hg hu h =>
    simp only [hs, hg, Option.toList_none, List.append_nil]
    exact hP.same hp h.same
  | updated he hu hi h =>
    subst he
    simp only [stored?, abandoned?, Option.toList_none, List.append_nil]
    exact hP.same (hP.same hp (same_withUpdate s hi _)) h.same
  | @dropped n he h =>
    subst he
    simp only [stored?, abandoned?, Option.toList_none, List.append_nil]
    cases hw : s.writing? (.call n) with
    | none =>
      rw [Option.toList_none, List.append_nil]
      exact hP.same (hP.same hp (same_close hw)) h.same
    | some ref => exact hP.same (hP.abandoned hp hw) h.same
  | begun hd hs h =>
    obtain ⟨ht, reply, -, rfl⟩ := hd
    simp only [hs, abandoned?, Option.toList_none, List.append_nil]
    exact hP.same (hP.activation hp (writing?_of_reading ht) _ _ _) h.same
  | @renewed t purpose record online hd hs h =>
    obtain ⟨ht, reply, -, rfl⟩ := hd
    simp only [hs, abandoned?, Option.toList_none, Option.toList_some, List.append_nil]
    have ha := hP.activation hp (writing?_of_reading ht) purpose record online
    have hw : (s.withActivation t purpose record online).writing? t = some s.instances.length := by
      rw [writing?_withActivation, if_pos rfl]
    exact hP.same (hP.store ha hw (fits_withActivation s t purpose record online)) h.same
  | installed he ht hi hc hs h =>
    subst he
    simp only [hs, abandoned?, Option.toList_none, Option.toList_some, List.append_nil]
    have hf : Store.Fits ⟨_, _, _, false⟩ s := ⟨stamp?_of_instance? hi, hc, Bool.noConfusion⟩
    exact hP.same (hP.store hp (writing?_eq_some.mpr ⟨_, ht⟩) hf) h.same
  | found he ht hi hc hn hs h =>
    subst he
    simp only [hs, abandoned?, Option.toList_none, Option.toList_some, List.append_nil]
    have hf : Store.Fits ⟨_, _, _, true⟩ s := ⟨stamp?_of_instance? hi, hc, fun _ => hn⟩
    exact hP.same (hP.store hp (writing?_eq_some.mpr ⟨_, ht⟩) hf) h.same
  | superseded he ht hi hc hs h =>
    subst he
    simp only [hs, abandoned?, Option.toList_none, List.append_nil]
    exact hP.same
      (hP.superseded hp (writing?_eq_some.mpr ⟨_, ht⟩) (stamp?_of_instance? hi) hc) h.same

/-- What was put into the cache during a run, in order. -/
def stores (ms : List Moment) : List Store :=
  ms.filterMap fun m => m.before.stored? m.event

/-- What was given up during a run, in order. -/
def abandoned (ms : List Moment) : List EdgeRef :=
  ms.filterMap fun m => m.before.abandoned? m.event

theorem stores_concat (ms : List Moment) (s : Service) (e : Event) :
    stores (ms ++ [⟨s, e⟩]) = stores ms ++ (s.stored? e).toList := by
  cases h : s.stored? e <;> simp [stores, h]

theorem abandoned_concat (ms : List Moment) (s : Service) (e : Event) :
    abandoned (ms ++ [⟨s, e⟩]) = abandoned ms ++ (s.abandoned? e).toList := by
  cases h : s.abandoned? e <;> simp [abandoned, h]

theorem abandoned_eq_nil {s : Service} {es : List Event} (h : ∀ n, .drop n ∉ es) :
    abandoned (s.moments es) = [] := by
  refine List.filterMap_eq_nil_iff.mpr fun m hm => ?_
  have he := event_mem_of_mem_moments hm
  cases hme : m.event with
  | drop n => exact absurd (hme ▸ he) (h n)
  | _ => rfl

/-- A property that each change keeps holds after every run. -/
theorem stable_run {P : List Store → List EdgeRef → Service → Prop} (hP : Stable P)
    {settings : Settings} (h0 : P [] [] (start settings)) (es : List Event) :
    P (stores ((start settings).moments es)) (abandoned ((start settings).moments es))
      ((start settings).run es) := by
  refine run_induct (P := fun ms s => P (stores ms) (abandoned ms) s) es h0 fun ms s e _ ha hp => ?_
  rw [stores_concat, abandoned_concat]
  exact hP.turn hp (turn_step ha e)

end EdgeFleet.Service
