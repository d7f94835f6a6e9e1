import EdgeFleet.Proofs.Service.Origin

/-! Which instance of an edge is left in the cache when its refreshes are over. Without a bound and without
drops the last refresh wins. With a bound a login can put an instance that has been superseded, and with
drops one can be superseded by an instance that nobody ever puts; there is no other way in which changes
of an edge at hand are no longer written. -/
namespace EdgeFleet.Service

open Cache.Recent (Used)

/-- No instance of the edge waits for its activation to be written. This is so, in particular, if no
refresh and no login is under way that touches the edge. -/
def Settled (s : Service) (id : EdgeId) : Prop :=
  ∀ t ref purpose i, s.task? t = some (.activating ref purpose) → s.instance? ref = some i →
    i.edge.id ≠ id

/-- The instance is one of the edge and has the current generation. -/
def Current (s : Service) (id : EdgeId) (ref : EdgeRef) : Prop :=
  ∃ i, s.instance? ref = some i ∧ i.edge.id = id ∧ s.isCurrent i = true

/-- The instance is current, and each change of it that is to be stored at once is written. -/
def Live (s : Service) (id : EdgeId) (ref : EdgeRef) : Prop :=
  ∃ i, s.instance? ref = some i ∧ i.edge.id = id ∧ s.isCurrent i = true ∧
    ∀ n u field value, s.task? (.call n) = none →
      (i.edge.update u).2.map WriteBack.effect = some (.store field value) →
      (s.step (.update n ref u)).2 = [.write (.call n) id field value]

theorem actions_update {s : Service} {n : Nat} {ref : EdgeRef} {u : Edge.Update} {i : Instance}
    {field : Directory.Field} {value : Json} (hn : s.task? (.call n) = none)
    (hi : s.instance? ref = some i)
    (hu : (i.edge.update u).2.map WriteBack.effect = some (.store field value)) :
    (s.step (.update n ref u)).2 =
      if s.isCurrent i then [.write (.call n) i.edge.id field value]
      else [.finish (.call n) .done] := by
  have hs : (s.step (.update n ref u)).2 = (s.updateInstance (.call n) ref u).2 := by
    simp [step, whenFree, hn]
  rw [hs]
  simp only [updateInstance, hi, hu, WriteBack.immediate?, Edge.id_update]
  by_cases hc : s.isCurrent i = true
  · have hg : s.generations.isCurrent i.edge.id i.generation = true := hc
    simp only [hc, hg, if_true]
  · have hg : ¬ s.generations.isCurrent i.edge.id i.generation = true := hc
    simp only [hc, hg]
    rfl

theorem live_iff_current {s : Service} {id : EdgeId} {ref : EdgeRef} :
    s.Live id ref ↔ s.Current id ref := by
  constructor
  · rintro ⟨i, hi, hid, hc, -⟩
    exact ⟨i, hi, hid, hc⟩
  · rintro ⟨i, hi, rfl, hc⟩
    refine ⟨i, hi, rfl, hc, fun n u field value hn hu => ?_⟩
    rw [actions_update hn hi hu, if_pos hc]

theorem current_iff_stamp? {s : Service} (hn : Numbered s) {id : EdgeId} {ref : EdgeRef} :
    s.Current id ref ↔ s.stamp? ref = some (id, s.generations.last id) := by
  constructor
  · rintro ⟨i, hi, rfl, hc⟩
    have hs := stamp?_of_instance? hi
    rw [(hn.isCurrent_iff hs).mp hc, hs]
  · intro hs
    obtain ⟨i, hi, rfl, hg⟩ := instance?_of_stamp? hs
    exact ⟨i, hi, rfl, (hn.isCurrent_iff (stamp?_of_instance? hi)).mpr hg.symm⟩

theorem Settled.ne_stamp? {s : Service} {id : EdgeId} (hs : s.Settled id) {t : Ticket}
    {ref : EdgeRef} (hw : s.writing? t = some ref) (g : Nat) : s.stamp? ref ≠ some (id, g) := by
  intro hst
  obtain ⟨purpose, ht⟩ := writing?_eq_some.mp hw
  obtain ⟨i, hi, hid, -⟩ := instance?_of_stamp? hst
  exact hs t ref purpose i ht hi hid

/-- When the refreshes of an edge are over, only what was given up is still pending. -/
theorem Pending.mem_gone {gone : List EdgeRef} {s : Service} {id : EdgeId}
    (hp : Pending gone s id) (hs : s.Settled id) :
    ∃ ref ∈ gone, s.stamp? ref = some (id, s.generations.last id) := by
  obtain ⟨ref, hst, ⟨t, hw⟩ | hg⟩ := hp
  · exact absurd hst (hs.ne_stamp? hw _)
  · exact ⟨ref, hg, hst⟩

/-- An edge at hand is live unless it was put late or its successor was given up. -/
theorem Orderly.current_iff {σs : List Store} {gone : List EdgeRef} {s : Service}
    (ho : Orderly σs gone s) {id : EdgeId} {ref : EdgeRef} (hs : s.Settled id)
    (hp : s.cache.edges.peek? id = some ref) :
    s.Current id ref ↔
      (∀ σ ∈ σs, σ.ref = ref → σ.late = false) ∧ ∀ other ∈ gone, ¬ s.Current id other := by
  obtain ⟨σ, hσ, rfl, rfl⟩ := ho.traced.cached id ref hp
  have hst := ho.traced.stamp σ hσ
  simp only [current_iff_stamp? ho.numbered]
  constructor
  · intro hc
    have hg := (Prod.mk.inj (Option.some.inj (hst.symm.trans hc))).2
    refine ⟨fun τ hτ hr => ?_, fun other ho' hc' => ?_⟩
    · cases hl : τ.late with
      | false => rfl
      | true =>
        have hlt := ho.traced.late τ hτ hl
        have hτs := ho.traced.stamp τ hτ
        rw [hr, hst] at hτs
        obtain ⟨hid, hgen⟩ := Prod.mk.inj (Option.some.inj hτs)
        rw [← hid, ← hgen] at hlt
        omega
    · exact ho.traced.apart σ hσ (ho.numbered.distinct _ _ _ _ hc hc' ▸ ho')
  · rintro ⟨hl, hgone⟩
    rcases ho.fresh σ hσ hp with hlate | hg | hpend
    · rw [hl σ hσ rfl] at hlate
      cases hlate
    · rw [hst, hg]
    · obtain ⟨other, hm, hc⟩ := hpend.mem_gone hs
      exact absurd hc (hgone other hm)

/-- Whatever happens, changes of an edge at hand are written, once its refreshes are over, unless it
was put late or an instance that is still current was given up. -/
theorem live_iff {settings : Settings} {es : List Event} {id : EdgeId} {ref : EdgeRef}
    (hs : ((start settings).run es).Settled id)
    (hp : ((start settings).run es).cache.edges.peek? id = some ref) :
    ((start settings).run es).Live id ref ↔
      (∀ σ ∈ stores ((start settings).moments es), σ.ref = ref → σ.late = false) ∧
        ∀ other ∈ abandoned ((start settings).moments es),
          ¬ ((start settings).run es).Current id other :=
  live_iff_current.trans ((orderly_run settings es).current_iff hs hp)

/-- What the refreshes of an edge come to if no edge is evicted and no call dropped. -/
structure Succession (ms : List Moment) (s : Service) (id : EdgeId) : Prop where
  /-- The edge at hand was made of a record that came for a reading of that edge. -/
  decoded : ∀ ref, s.cache.edges.peek? id = some ref →
    ∃ i, s.instance? ref = some i ∧ i.edge.id = id ∧ Origin ms ref i
  /-- The edges at hand change by what is put, and otherwise by uses only. -/
  changes : ∀ m ∈ ms, Used (edgesWith m.before.cache.edges (m.before.stored? m.event))
    (m.before.step m.event).1.cache.edges
  /-- What is put are instances of the edge, with generations that were handed out. -/
  issued : ∀ σ ∈ stores ms, σ.id = id → σ.generation ≤ s.generations.last id ∧
    ∃ i, s.instance? σ.ref = some i ∧ i.edge.id = id ∧ i.generation = σ.generation
  /-- Each generation that is put is above all that were put before. -/
  rising : ((stores ms).filter (·.id = id)).Pairwise fun σ τ => σ.generation < τ.generation
  /-- The edge at hand is the latest one when its refreshes are over, if any of them had a record. -/
  latest : s.Settled id →
    (∃ m ∈ ms, ∃ t purpose record online,
      m.before.Decodes m.event t purpose record online ∧ record.id = id) →
    ∃ ref i, s.cache.edges.peek? id = some ref ∧ s.instance? ref = some i ∧ i.edge.id = id ∧
      s.isCurrent i = true ∧ i.generation = s.generations.last id ∧
      ∀ other j, s.instance? other = some j → j.edge.id = id → other ≠ ref →
        j.generation < i.generation

/-- The latest instance of an edge has a generation above those of all others. -/
theorem Numbered.lt_latest {s : Service} (hn : Numbered s) {ref other : EdgeRef} {id : EdgeId}
    {g : Nat} (hs : s.stamp? ref = some (id, s.generations.last id))
    (ho : s.stamp? other = some (id, g)) (hne : other ≠ ref) : g < s.generations.last id := by
  refine Nat.lt_of_le_of_ne (hn.issued other id g ho).2 fun he => ?_
  rw [he] at ho
  exact hne (hn.distinct other ref _ _ ho hs)

/-- Without a bound on the cache and without drops the last refresh wins. -/
theorem succession_run {settings : Settings} (hcap : settings.edgeCapacity = none)
    {es : List Event} (hdrop : ∀ n, .drop n ∉ es) (id : EdgeId) :
    Succession ((start settings).moments es) ((start settings).run es) id := by
  have ho := orderly_run settings es
  have hu := unevicted_run hcap es
  refine ⟨fun ref hp => ?_, fun m hm => used_step (aligned_of_mem_moments hm) m.event,
    fun σ hσ hid => ?_, ?_, fun hset hdec => ?_⟩
  · obtain ⟨σ, hσ, rfl, rfl⟩ := ho.traced.cached id ref hp
    obtain ⟨i, hi, hid, -⟩ := instance?_of_stamp? (ho.traced.stamp σ hσ)
    exact ⟨i, hi, hid, origin_run settings es σ.ref i hi⟩
  · subst hid
    have hst := ho.traced.stamp σ hσ
    exact ⟨(ho.numbered.issued _ _ _ hst).2, instance?_of_stamp? hst⟩
  · refine List.pairwise_filter.mpr (hu.rising.imp fun h hσ hτ => h ?_)
    rw [of_decide_eq_true hσ, of_decide_eq_true hτ]
  · obtain ⟨m, hm, t, purpose, record, online, hd, rfl⟩ := hdec
    have hpos := last_run_pos settings es hm hd
    rcases hu.latest record.id hpos with ⟨ref, hst, hp⟩ | hpend
    · obtain ⟨i, hi, hid, hg⟩ := instance?_of_stamp? hst
      have hc : ((start settings).run es).isCurrent i = true := by
        rw [isCurrent, hid, hg]
        exact (ho.numbered.isCurrent_iff hst).mpr rfl
      refine ⟨ref, i, hp, hi, hid, hc, hg, fun other j hj hjid hne => ?_⟩
      have hjs := stamp?_of_instance? hj
      rw [hjid] at hjs
      rw [hg]
      exact ho.numbered.lt_latest hst hjs hne
    · obtain ⟨ref, hg, -⟩ := hpend.mem_gone hset
      rw [abandoned_eq_nil hdrop] at hg
      exact absurd hg List.not_mem_nil

/-- Two refreshes, the first of which still waits for its activation when the second is done. -/
def overtaken : List Event :=
  [.refresh 0 edgeOne, .refresh 1 edgeOne,
    .record (.call 0) (.ok (recordOf edgeOne .inactive)) true,
    .record (.call 1) (.ok (recordOf edgeOne .active)) true, .stored (.call 0)]

theorem drop_notMem_overtaken (n : Nat) : .drop n ∉ overtaken := by simp [overtaken]

theorem succession_overtaken :
    (∀ n, .drop n ∉ overtaken) ∧
      Succession ((start { edgeCapacity := none }).moments overtaken)
        ((start { edgeCapacity := none }).run overtaken) edgeOne :=
  ⟨drop_notMem_overtaken, succession_run rfl drop_notMem_overtaken edgeOne⟩

theorem settled_of_tasks {s : Service} (h : s.tasks = []) (id : EdgeId) : s.Settled id := by
  intro t ref purpose i ht
  simp [task?, h] at ht

/-- Without drops, whatever the bound on the cache, the changes of an edge at hand are written once its
refreshes are over, unless it is an instance that a login put after it had been superseded. -/
theorem live_iff_not_late {settings : Settings} {es : List Event} (hdrop : ∀ n, .drop n ∉ es)
    {id : EdgeId} {ref : EdgeRef} (hs : ((start settings).run es).Settled id)
    (hp : ((start settings).run es).cache.edges.peek? id = some ref) :
    ((start settings).run es).Live id ref ↔
      ∀ σ ∈ stores ((start settings).moments es), σ.ref = ref → σ.late = false := by
  rw [live_iff hs hp, abandoned_eq_nil hdrop]
  exact and_iff_left fun other h => absurd h List.not_mem_nil

theorem live_overtaken :
    ((start { edgeCapacity := some ⟨1, by decide⟩ }).run overtaken).Live edgeOne 1 := by
  have hset : ((start { edgeCapacity := some ⟨1, by decide⟩ }).run overtaken).Settled edgeOne :=
    settled_of_tasks rfl edgeOne
  have hp : ((start { edgeCapacity := some ⟨1, by decide⟩ }).run overtaken).cache.edges.peek?
      edgeOne = some 1 := rfl
  refine (live_iff_not_late drop_notMem_overtaken hset hp).mpr ?_
  intro σ hσ hr
  have hs : stores ((start { edgeCapacity := some ⟨1, by decide⟩ }).moments overtaken) =
      [⟨edgeOne, 1, 2, false⟩] := rfl
  rw [hs, List.mem_singleton] at hσ
  rw [hσ]

/-- A login whose instance waits for its activation while the edge is refreshed and evicted. -/
def lateLogin : List Event :=
  [.logIn 0 (some "session"),
    .confirmed (.call 0) (.ok ⟨⟨userOne, "A"⟩, [⟨edgeOne, "owner"⟩]⟩),
    .refresh 1 edgeOne, .record (.call 0) (.ok (recordOf edgeOne .inactive)) true,
    .record (.call 1) (.ok (recordOf edgeOne .active)) true,
    .lookUp 2 edgeTwo, .record (.call 2) (.ok (recordOf edgeTwo .active)) true,
    .stored (.call 0)]

theorem not_live_of_stamp? {settings : Settings} {es : List Event} {id : EdgeId} {ref : EdgeRef}
    (h : ((start settings).run es).stamp? ref ≠
      some (id, ((start settings).run es).generations.last id)) :
    ¬ ((start settings).run es).Live id ref := by
  rwa [live_iff_current, current_iff_stamp? (orderly_run settings es).numbered]

/-- With room for one edge it leaves the instance of the login in the cache, whose changes are no
longer written. -/
theorem not_live_lateLogin :
    (∀ n, .drop n ∉ lateLogin) ∧
      ((start { edgeCapacity := some ⟨1, by decide⟩ }).run lateLogin).tasks = [] ∧
      ((start { edgeCapacity := some ⟨1, by decide⟩ }).run lateLogin).Settled edgeOne ∧
      ((start { edgeCapacity := some ⟨1, by decide⟩ }).run lateLogin).cache.edges.peek? edgeOne =
        some 0 ∧
      ¬ ((start { edgeCapacity := some ⟨1, by decide⟩ }).run lateLogin).Live edgeOne 0 := by
  refine ⟨fun n => by simp [lateLogin], rfl, settled_of_tasks rfl edgeOne, rfl, ?_⟩
  have hs : ((start { edgeCapacity := some ⟨1, by decide⟩ }).run lateLogin).stamp? 0 =
      some (edgeOne, 1) := rfl
  have hl : ((start { edgeCapacity := some ⟨1, by decide⟩ }).run lateLogin).generations.last
      edgeOne = 2 := rfl
  apply not_live_of_stamp?
  rw [hs, hl]
  decide

/-- Without a bound on the cache, whatever is dropped, the changes of an edge at hand are written once
its refreshes are over, unless the latest instance was given up with a call that was dropped. -/
theorem live_iff_not_abandoned {settings : Settings} (hcap : settings.edgeCapacity = none)
    {es : List Event} {id : EdgeId} {ref : EdgeRef} (hs : ((start settings).run es).Settled id)
    (hp : ((start settings).run es).cache.edges.peek? id = some ref) :
    ((start settings).run es).Live id ref ↔
      ∀ other ∈ abandoned ((start settings).moments es),
        ¬ ((start settings).run es).Current id other := by
  have ho := orderly_run settings es
  constructor
  · intro hl
    exact ((live_iff hs hp).mp hl).2
  · intro hgone
    obtain ⟨σ, hσ, rfl, rfl⟩ := ho.traced.cached id ref hp
    have hi := ho.numbered.issued _ _ _ (ho.traced.stamp σ hσ)
    rw [live_iff_current, current_iff_stamp? ho.numbered]
    rcases (unevicted_run hcap es).latest σ.id (by omega) with ⟨other, hst, hp'⟩ | hpend
    · rw [hp] at hp'
      exact Option.some.inj hp' ▸ hst
    · obtain ⟨other, hg, hst⟩ := hpend.mem_gone hs
      exact absurd ((current_iff_stamp? ho.numbered).mpr hst) (hgone other hg)

/-- Two calls look an edge up, and the first is given up before its record comes. -/
def droppedEarly : List Event :=
  [.lookUp 0 edgeOne, .lookUp 1 edgeOne, .drop 0,
    .record (.call 1) (.ok (recordOf edgeOne .inactive)) false]

theorem live_droppedEarly :
    ((start { edgeCapacity := none }).run droppedEarly).Live edgeOne 0 := by
  have hset : ((start { edgeCapacity := none }).run droppedEarly).Settled edgeOne :=
    settled_of_tasks rfl edgeOne
  have hp : ((start { edgeCapacity := none }).run droppedEarly).cache.edges.peek? edgeOne =
      some 0 := rfl
  refine (live_iff_not_abandoned rfl hset hp).mpr ?_
  have ha : abandoned ((start { edgeCapacity := none }).moments droppedEarly) = [] := rfl
  intro other ho
  rw [ha] at ho
  cases ho

/-- Two calls look an edge up, and one is given up while it waits for the activation. -/
def droppedLate : List Event :=
  [.lookUp 0 edgeOne, .lookUp 1 edgeOne,
    .record (.call 1) (.ok (recordOf edgeOne .inactive)) false,
    .record (.call 0) (.ok (recordOf edgeOne .inactive)) true, .drop 0]

/-- The instance of the other call is left in the cache, and its changes are no longer written. -/
theorem not_live_droppedLate :
    ((start { edgeCapacity := none }).run droppedLate).tasks = [] ∧
      ((start { edgeCapacity := none }).run droppedLate).Settled edgeOne ∧
      ((start { edgeCapacity := none }).run droppedLate).cache.edges.peek? edgeOne = some 0 ∧
      ¬ ((start { edgeCapacity := none }).run droppedLate).Live edgeOne 0 := by
  refine ⟨rfl, settled_of_tasks rfl edgeOne, rfl, ?_⟩
  have hs : ((start { edgeCapacity := none }).run droppedLate).stamp? 0 = some (edgeOne, 1) := rfl
  have hl : ((start { edgeCapacity := none }).run droppedLate).generations.last edgeOne = 2 := rfl
  apply not_live_of_stamp?
  rw [hs, hl]
  decide

end EdgeFleet.Service
