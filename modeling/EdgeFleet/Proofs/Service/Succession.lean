import EdgeFleet.Proofs.Service.Refresh

/-! How the instances of an edge succeed each other: each has a generation of its own and is put into the
cache at most once, and the latest one is at hand, on its way there, or was given up. -/
namespace EdgeFleet.Service

/-- Instances of an edge have generations of their own, none above the last one handed out, and each
is waited for by one task at most. -/
structure Numbered (s : Service) : Prop where
  known : ∀ t ref, s.writing? t = some ref → ∃ id g, s.stamp? ref = some (id, g)
  once : ∀ t t' ref, s.writing? t = some ref → s.writing? t' = some ref → t = t'
  issued : ∀ ref id g, s.stamp? ref = some (id, g) → 0 < g ∧ g ≤ s.generations.last id
  distinct : ∀ ref ref' id g, s.stamp? ref = some (id, g) → s.stamp? ref' = some (id, g) →
    ref = ref'

/-- The instance is there, and no task waits for its activation. -/
def Closed (s : Service) (ref : EdgeRef) : Prop :=
  (∃ id g, s.stamp? ref = some (id, g)) ∧ ∀ t, s.writing? t ≠ some ref

/-- The latest instance of the edge waits for its activation or was given up. -/
def Pending (gone : List EdgeRef) (s : Service) (id : EdgeId) : Prop :=
  ∃ ref, s.stamp? ref = some (id, s.generations.last id) ∧
    ((∃ t, s.writing? t = some ref) ∨ ref ∈ gone)

/-- What was put into the cache and what was given up are closed and apart from each other, and the
edges at hand are among those that were put. -/
structure Traced (σs : List Store) (gone : List EdgeRef) (s : Service) : Prop where
  stamp : ∀ σ ∈ σs, s.stamp? σ.ref = some (σ.id, σ.generation)
  closed : ∀ σ ∈ σs, s.Closed σ.ref
  late : ∀ σ ∈ σs, σ.late = true → σ.generation < s.generations.last σ.id
  given : ∀ ref ∈ gone, s.Closed ref
  apart : ∀ σ ∈ σs, σ.ref ∉ gone
  cached : ∀ id ref, s.cache.edges.peek? id = some ref → ∃ σ ∈ σs, σ.id = id ∧ σ.ref = ref

/-- An edge at hand that was not put there late is the latest one, as long as that is not pending. -/
def Fresh (σs : List Store) (gone : List EdgeRef) (s : Service) : Prop :=
  ∀ σ ∈ σs, s.cache.edges.peek? σ.id = some σ.ref →
    σ.late = true ∨ σ.generation = s.generations.last σ.id ∨ Pending gone s σ.id

/-- What holds with any bound on the cache. -/
structure Orderly (σs : List Store) (gone : List EdgeRef) (s : Service) : Prop where
  numbered : Numbered s
  traced : Traced σs gone s
  fresh : Fresh σs gone s

/-- What holds besides if there is no bound: each edge that was put is still there or has been
replaced by one of a later generation. -/
structure Unevicted (σs : List Store) (gone : List EdgeRef) (s : Service) : Prop where
  unbounded : s.cache.edges.capacity = none
  kept : ∀ σ ∈ σs, ∃ ref, s.cache.edges.peek? σ.id = some ref
  latest : ∀ id, 0 < s.generations.last id →
    (∃ ref, s.stamp? ref = some (id, s.generations.last id) ∧
      s.cache.edges.peek? id = some ref) ∨ Pending gone s id
  rising : σs.Pairwise fun σ τ => σ.id = τ.id → σ.generation < τ.generation

theorem Numbered.isCurrent_iff {s : Service} (hn : Numbered s) {ref : EdgeRef} {id : EdgeId}
    {g : Nat} (h : s.stamp? ref = some (id, g)) :
    s.generations.isCurrent id g = true ↔ s.generations.last id = g :=
  Generations.isCurrent_iff_last (hn.issued ref id g h).1

theorem stamp?_ne_length {s : Service} {ref : EdgeRef} {id : EdgeId} {g : Nat}
    (h : s.stamp? ref = some (id, g)) : ref ≠ s.instances.length := by
  intro he
  rw [he, stamp?_length] at h
  cases h

section Same

variable {s s' : Service} {σs : List Store} {gone : List EdgeRef}

theorem Numbered.same (hn : Numbered s) (h : Same s s') : Numbered s' := by
  refine ⟨?_, ?_, ?_, ?_⟩
  · simpa only [h.stamps, h.writing] using hn.known
  · simpa only [h.writing] using hn.once
  · simpa only [h.stamps, h.generations] using hn.issued
  · simpa only [h.stamps] using hn.distinct

theorem Same.closed_iff (h : Same s s') (ref : EdgeRef) : s'.Closed ref ↔ s.Closed ref := by
  simp only [Closed, h.stamps, h.writing]

theorem Same.pending_iff (h : Same s s') (id : EdgeId) :
    Pending gone s' id ↔ Pending gone s id := by
  simp only [Pending, h.stamps, h.generations, h.writing]

theorem Traced.same (ht : Traced σs gone s) (h : Same s s') : Traced σs gone s' := by
  refine ⟨?_, ?_, ?_, ?_, ht.apart, ?_⟩
  · simpa only [h.stamps] using ht.stamp
  · simpa only [h.closed_iff] using ht.closed
  · simpa only [h.generations] using ht.late
  · simpa only [h.closed_iff] using ht.given
  · simpa only [h.edges.peek?_eq] using ht.cached

theorem Fresh.same (hf : Fresh σs gone s) (h : Same s s') : Fresh σs gone s' := by
  simpa only [Fresh, h.edges.peek?_eq, h.generations, h.pending_iff] using hf

theorem Orderly.same (ho : Orderly σs gone s) (h : Same s s') : Orderly σs gone s' :=
  ⟨ho.numbered.same h, ho.traced.same h, ho.fresh.same h⟩

theorem Unevicted.same (hu : Unevicted σs gone s) (h : Same s s') : Unevicted σs gone s' := by
  refine ⟨h.edges.capacity_eq.trans hu.unbounded, ?_, ?_, hu.rising⟩
  · simpa only [h.edges.peek?_eq] using hu.kept
  · simpa only [h.stamps, h.generations, h.edges.peek?_eq, h.pending_iff] using hu.latest

end Same

section Activation

variable {s : Service} {σs : List Store} {gone : List EdgeRef} {t : Ticket}

theorem stamp?_withActivation_of_some {ref : EdgeRef} {id : EdgeId} {g : Nat}
    (h : s.stamp? ref = some (id, g)) (purpose : Purpose) (record : EdgeRecord) (online : Bool) :
    (s.withActivation t purpose record online).stamp? ref = some (id, g) := by
  rw [stamp?_withActivation, if_neg (stamp?_ne_length h), h]

theorem last_withActivation_of_ne {record : EdgeRecord} {id : EdgeId} (h : id ≠ record.id)
    (purpose : Purpose) (online : Bool) :
    (s.withActivation t purpose record online).generations.last id = s.generations.last id :=
  Generations.last_advance_of_ne s.generations h

theorem last_withActivation_self (purpose : Purpose) (record : EdgeRecord) (online : Bool) :
    (s.withActivation t purpose record online).generations.last record.id =
      s.generations.last record.id + 1 :=
  Generations.last_advance_self s.generations record.id

theorem last_le_withActivation (purpose : Purpose) (record : EdgeRecord) (online : Bool)
    (id : EdgeId) :
    s.generations.last id ≤ (s.withActivation t purpose record online).generations.last id := by
  by_cases h : id = record.id
  · subst h
    rw [last_withActivation_self]
    exact Nat.le_succ _
  · exact Nat.le_of_eq (last_withActivation_of_ne h purpose online).symm

theorem Numbered.withActivation (hn : Numbered s) (purpose : Purpose) (record : EdgeRecord)
    (online : Bool) : Numbered (s.withActivation t purpose record online) := by
  have hfree (other : Ticket) : s.writing? other ≠ some s.instances.length := by
    intro hw
    obtain ⟨id, g, hg⟩ := hn.known other _ hw
    exact stamp?_ne_length hg rfl
  have hnew (ref : EdgeRef) :
      s.stamp? ref ≠ some (record.id, (s.generations.advance record.id).2) := by
    intro hs
    have hle := (hn.issued ref _ _ hs).2
    have hlt := Generations.last_lt_advance s.generations record.id
    omega
  refine ⟨fun other ref hw => ?_, fun a b ref hwa hwb => ?_, fun ref id g hs => ?_,
    fun a b id g hsa hsb => ?_⟩
  · rw [writing?_withActivation] at hw
    split at hw
    · cases hw
      exact ⟨_, _, (fits_withActivation s t purpose record online).stamp⟩
    · obtain ⟨id, g, hg⟩ := hn.known other ref hw
      exact ⟨id, g, stamp?_withActivation_of_some hg purpose record online⟩
  · rw [writing?_withActivation] at hwa hwb
    split at hwa
    · split at hwb
      · rename_i ha hb
        rw [ha, hb]
      · cases hwa
        exact absurd hwb (hfree b)
    · split at hwb
      · cases hwb
        exact absurd hwa (hfree a)
      · exact hn.once a b ref hwa hwb
  · rw [stamp?_withActivation] at hs
    split at hs
    · cases hs
      rw [last_withActivation_self]
      exact ⟨Nat.succ_pos _, Nat.le_refl _⟩
    · have hi := hn.issued ref id g hs
      exact ⟨hi.1, Nat.le_trans hi.2 (last_le_withActivation purpose record online id)⟩
  · rw [stamp?_withActivation] at hsa hsb
    split at hsa
    · split at hsb
      · rename_i ha hb
        rw [ha, hb]
      · cases hsa
        exact absurd hsb (hnew b)
    · split at hsb
      · cases hsb
        exact absurd hsa (hnew a)
      · exact hn.distinct a b id g hsa hsb

theorem Closed.withActivation {ref : EdgeRef} (hc : s.Closed ref) (purpose : Purpose)
    (record : EdgeRecord) (online : Bool) :
    (s.withActivation t purpose record online).Closed ref := by
  obtain ⟨⟨id, g, hs⟩, hw⟩ := hc
  refine ⟨⟨id, g, stamp?_withActivation_of_some hs purpose record online⟩, fun other => ?_⟩
  rw [writing?_withActivation]
  split
  · intro he
    exact stamp?_ne_length hs (Option.some.inj he).symm
  · exact hw other

theorem Traced.withActivation (ht : Traced σs gone s) (purpose : Purpose) (record : EdgeRecord)
    (online : Bool) : Traced σs gone (s.withActivation t purpose record online) := by
  refine ⟨fun σ hσ => ?_, fun σ hσ => ?_, fun σ hσ hl => ?_, fun ref hr => ?_, ht.apart, ht.cached⟩
  · exact stamp?_withActivation_of_some (ht.stamp σ hσ) purpose record online
  · exact (ht.closed σ hσ).withActivation purpose record online
  · exact Nat.lt_of_lt_of_le (ht.late σ hσ hl) (last_le_withActivation purpose record online _)
  · exact (ht.given ref hr).withActivation purpose record online

theorem pending_withActivation_self (purpose : Purpose) (record : EdgeRecord) (online : Bool) :
    Pending gone (s.withActivation t purpose record online) record.id := by
  refine ⟨s.instances.length, ?_, Or.inl ⟨t, ?_⟩⟩
  · rw [stamp?_withActivation, if_pos rfl, last_withActivation_self]
    rfl
  · rw [writing?_withActivation, if_pos rfl]

theorem Pending.withActivation {id : EdgeId} (hp : Pending gone s id) (ht : s.writing? t = none)
    (purpose : Purpose) (record : EdgeRecord) (online : Bool) :
    Pending gone (s.withActivation t purpose record online) id := by
  by_cases h : id = record.id
  · subst h
    exact pending_withActivation_self purpose record online
  · obtain ⟨ref, hs, hw⟩ := hp
    refine ⟨ref, ?_, hw.imp_left fun ⟨other, ho⟩ => ⟨other, ?_⟩⟩
    · rw [last_withActivation_of_ne h]
      exact stamp?_withActivation_of_some hs purpose record online
    · have hne : other ≠ t := by
        intro he
        rw [he, ht] at ho
        cases ho
      rw [writing?_withActivation, if_neg hne, ho]

theorem Fresh.withActivation (hf : Fresh σs gone s) (ht : s.writing? t = none) (purpose : Purpose)
    (record : EdgeRecord) (online : Bool) :
    Fresh σs gone (s.withActivation t purpose record online) := by
  intro σ hσ hp
  by_cases h : σ.id = record.id
  · rw [h]
    exact Or.inr (Or.inr (pending_withActivation_self purpose record online))
  · rw [last_withActivation_of_ne h]
    rcases hf σ hσ hp with hl | hg | hp
    · exact Or.inl hl
    · exact Or.inr (Or.inl hg)
    · exact Or.inr (Or.inr (hp.withActivation ht purpose record online))

theorem Orderly.withActivation (ho : Orderly σs gone s) (ht : s.writing? t = none)
    (purpose : Purpose) (record : EdgeRecord) (online : Bool) :
    Orderly σs gone (s.withActivation t purpose record online) :=
  ⟨ho.numbered.withActivation purpose record online, ho.traced.withActivation purpose record online,
    ho.fresh.withActivation ht purpose record online⟩

theorem Unevicted.withActivation (hu : Unevicted σs gone s) (ht : s.writing? t = none)
    (purpose : Purpose) (record : EdgeRecord) (online : Bool) :
    Unevicted σs gone (s.withActivation t purpose record online) := by
  refine ⟨hu.unbounded, hu.kept, fun id hl => ?_, hu.rising⟩
  by_cases h : id = record.id
  · subst h
    exact Or.inr (pending_withActivation_self purpose record online)
  · rw [last_withActivation_of_ne h] at hl ⊢
    rcases hu.latest id hl with ⟨ref, hs, hp⟩ | hp
    · exact Or.inl ⟨ref, stamp?_withActivation_of_some hs purpose record online, hp⟩
    · exact Or.inr (hp.withActivation ht purpose record online)

end Activation

section Close

variable {s : Service} {σs : List Store} {gone : List EdgeRef} {t : Ticket}

theorem writing?_of_close {other : Ticket} {ref : EdgeRef}
    (h : (s.close t).writing? other = some ref) : other ≠ t ∧ s.writing? other = some ref := by
  rw [writing?_close] at h
  split at h
  · cases h
  · rename_i hne
    exact ⟨hne, h⟩

theorem Numbered.close (hn : Numbered s) (t : Ticket) : Numbered (s.close t) :=
  ⟨fun other ref hw => hn.known other ref (writing?_of_close hw).2,
    fun a b ref ha hb => hn.once a b ref (writing?_of_close ha).2 (writing?_of_close hb).2,
    hn.issued, hn.distinct⟩

theorem Numbered.withStore (hn : Numbered s) (id : EdgeId) (ref : EdgeRef) :
    Numbered (s.withStore id ref) := ⟨hn.known, hn.once, hn.issued, hn.distinct⟩

theorem Closed.close {ref : EdgeRef} (hc : s.Closed ref) (t : Ticket) : (s.close t).Closed ref :=
  ⟨hc.1, fun other hw => hc.2 other (writing?_of_close hw).2⟩

theorem Numbered.closed_close (hn : Numbered s) {ref : EdgeRef} (hw : s.writing? t = some ref) :
    (s.close t).Closed ref := by
  refine ⟨hn.known t ref hw, fun other ho => ?_⟩
  obtain ⟨hne, ho⟩ := writing?_of_close ho
  exact hne (hn.once other t ref ho hw)

theorem Closed.ne {ref ref' : EdgeRef} (hc : s.Closed ref) (hw : s.writing? t = some ref') :
    ref ≠ ref' := by
  intro he
  exact hc.2 t (he ▸ hw)

theorem Pending.close {id : EdgeId} (hp : Pending gone s id) {ref : EdgeRef}
    (hw : s.writing? t = some ref)
    (hne : s.stamp? ref ≠ some (id, s.generations.last id)) : Pending gone (s.close t) id := by
  obtain ⟨ref', hs, hw'⟩ := hp
  refine ⟨ref', hs, hw'.imp_left fun ⟨other, ho⟩ => ⟨other, ?_⟩⟩
  have hot : other ≠ t := by
    intro he
    rw [he, hw] at ho
    cases ho
    exact hne hs
  rw [writing?_close, if_neg hot, ho]

theorem Pending.abandon {id : EdgeId} (hp : Pending gone s id) {ref : EdgeRef}
    (hw : s.writing? t = some ref) : Pending (gone ++ [ref]) (s.close t) id := by
  obtain ⟨ref', hs, ⟨other, ho⟩ | hg⟩ := hp
  · refine ⟨ref', hs, ?_⟩
    by_cases hot : other = t
    · rw [hot, hw] at ho
      cases ho
      exact Or.inr (by simp)
    · exact Or.inl ⟨other, by rw [writing?_close, if_neg hot, ho]⟩
  · exact ⟨ref', hs, Or.inr (List.mem_append_left _ hg)⟩

theorem Traced.close (ht : Traced σs gone s) (t : Ticket) : Traced σs gone (s.close t) :=
  ⟨ht.stamp, fun σ hσ => (ht.closed σ hσ).close t, ht.late, fun ref hr => (ht.given ref hr).close t,
    ht.apart, ht.cached⟩

theorem Traced.abandon (ht : Traced σs gone s) (hn : Numbered s) {ref : EdgeRef}
    (hw : s.writing? t = some ref) : Traced σs (gone ++ [ref]) (s.close t) := by
  have hc := ht.close t
  refine ⟨hc.stamp, hc.closed, hc.late, fun other ho => ?_, fun σ hσ ho => ?_, hc.cached⟩
  · rcases List.mem_append.mp ho with ho | ho
    · exact hc.given other ho
    · rw [List.mem_singleton.mp ho]
      exact hn.closed_close hw
  · rcases List.mem_append.mp ho with ho | ho
    · exact ht.apart σ hσ ho
    · exact (ht.closed σ hσ).ne hw (List.mem_singleton.mp ho)

theorem Traced.store (ht : Traced σs gone s) (hn : Numbered s) {σ : Store}
    (hw : s.writing? t = some σ.ref) (hσ : σ.Fits s) :
    Traced (σs ++ [σ]) gone ((s.close t).withStore σ.id σ.ref) := by
  have hc := ht.close t
  have hmem {τ : Store} (hτ : τ ∈ σs ++ [σ]) : τ ∈ σs ∨ τ = σ := by
    simpa only [List.mem_append, List.mem_singleton] using hτ
  refine ⟨fun τ hτ => ?_, fun τ hτ => ?_, fun τ hτ hl => ?_, hc.given, fun τ hτ hg => ?_,
    fun id ref hp => ?_⟩
  · rcases hmem hτ with hτ | rfl
    · exact ht.stamp τ hτ
    · exact hσ.stamp
  · rcases hmem hτ with hτ | rfl
    · exact hc.closed τ hτ
    · exact hn.closed_close hw
  · rcases hmem hτ with hτ | rfl
    · exact ht.late τ hτ hl
    · have hle := (hn.issued _ _ _ hσ.stamp).2
      have hne : s.generations.last τ.id ≠ τ.generation := by
        intro he
        have hc := (hn.isCurrent_iff hσ.stamp).mpr he
        rw [hσ.current, hl] at hc
        cases hc
      exact Nat.lt_of_le_of_ne hle hne.symm
  · rcases hmem hτ with hτ | rfl
    · exact ht.apart τ hτ hg
    · exact (ht.given _ hg).2 t hw
  · by_cases hid : id = σ.id
    · subst hid
      have hp' : some σ.ref = some ref := (Cache.Recent.peek?_put_self _ _ _).symm.trans hp
      exact ⟨σ, by simp, rfl, Option.some.inj hp'⟩
    · obtain ⟨τ, hτ, h⟩ := ht.cached id ref (Cache.Recent.peek?_of_put_of_ne _ hid hp)
      exact ⟨τ, List.mem_append_left _ hτ, h⟩

theorem Numbered.ne_latest (hn : Numbered s) {ref : EdgeRef} {id : EdgeId} {g : Nat}
    (hs : s.stamp? ref = some (id, g)) (hc : s.generations.isCurrent id g = false)
    (other : EdgeId) : s.stamp? ref ≠ some (other, s.generations.last other) := by
  intro hl
  rw [hs] at hl
  cases hl
  rw [(hn.isCurrent_iff hs).mpr rfl] at hc
  cases hc

theorem Fresh.superseded (hf : Fresh σs gone s) (hn : Numbered s) {ref : EdgeRef} {id : EdgeId}
    {g : Nat} (hw : s.writing? t = some ref) (hs : s.stamp? ref = some (id, g))
    (hc : s.generations.isCurrent id g = false) : Fresh σs gone (s.close t) := by
  intro σ hσ hp
  rcases hf σ hσ hp with hl | hg | hp
  · exact Or.inl hl
  · exact Or.inr (Or.inl hg)
  · exact Or.inr (Or.inr (hp.close hw (hn.ne_latest hs hc σ.id)))

theorem Fresh.abandon (hf : Fresh σs gone s) {ref : EdgeRef} (hw : s.writing? t = some ref) :
    Fresh σs (gone ++ [ref]) (s.close t) := by
  intro σ hσ hp
  rcases hf σ hσ hp with hl | hg | hp
  · exact Or.inl hl
  · exact Or.inr (Or.inl hg)
  · exact Or.inr (Or.inr (hp.abandon hw))

theorem Fresh.store (hf : Fresh σs gone s) (hn : Numbered s) (ht : Traced σs gone s) {σ : Store}
    (hw : s.writing? t = some σ.ref) (hσ : σ.Fits s) :
    Fresh (σs ++ [σ]) gone ((s.close t).withStore σ.id σ.ref) := by
  intro τ hτ hp
  rcases List.mem_append.mp hτ with hτ | hτ
  · have hid : τ.id ≠ σ.id := by
      intro he
      rw [he] at hp
      have hp' : some σ.ref = some τ.ref := (Cache.Recent.peek?_put_self _ _ _).symm.trans hp
      exact (ht.closed τ hτ).ne hw (Option.some.inj hp').symm
    have hne : s.stamp? σ.ref ≠ some (τ.id, s.generations.last τ.id) := by
      intro he
      rw [hσ.stamp] at he
      exact hid (Prod.mk.inj (Option.some.inj he)).1.symm
    rcases hf τ hτ (Cache.Recent.peek?_of_put_of_ne _ hid hp) with hl | hg | hp
    · exact Or.inl hl
    · exact Or.inr (Or.inl hg)
    · exact Or.inr (Or.inr (hp.close hw hne))
  · rw [List.mem_singleton.mp hτ]
    cases hl : σ.late with
    | true => exact Or.inl rfl
    | false =>
      have hc := hσ.current
      rw [hl] at hc
      exact Or.inr (Or.inl ((hn.isCurrent_iff hσ.stamp).mp hc).symm)

theorem Unevicted.superseded (hu : Unevicted σs gone s) (hn : Numbered s) {ref : EdgeRef}
    {id : EdgeId} {g : Nat} (hw : s.writing? t = some ref) (hs : s.stamp? ref = some (id, g))
    (hc : s.generations.isCurrent id g = false) : Unevicted σs gone (s.close t) := by
  refine ⟨hu.unbounded, hu.kept, fun other hl => ?_, hu.rising⟩
  exact (hu.latest other hl).imp_right fun hp => hp.close hw (hn.ne_latest hs hc other)

theorem Unevicted.abandon (hu : Unevicted σs gone s) {ref : EdgeRef}
    (hw : s.writing? t = some ref) : Unevicted σs (gone ++ [ref]) (s.close t) :=
  ⟨hu.unbounded, hu.kept, fun other hl => (hu.latest other hl).imp_right fun hp => hp.abandon hw,
    hu.rising⟩

/-- What is put has a later generation than all that was put there before. -/
theorem Unevicted.lt_of_fits (hu : Unevicted σs gone s) (ho : Orderly σs gone s) {σ : Store}
    (hw : s.writing? t = some σ.ref) (hσ : σ.Fits s) {τ : Store} (hτ : τ ∈ σs)
    (hid : τ.id = σ.id) : τ.generation < σ.generation := by
  have hτs := ho.traced.stamp τ hτ
  cases hl : σ.late with
  | true =>
    obtain ⟨ref, hp⟩ := hu.kept τ hτ
    rw [hid, hσ.absent hl] at hp
    cases hp
  | false =>
    have hc := hσ.current
    rw [hl] at hc
    have hlast := (ho.numbered.isCurrent_iff hσ.stamp).mp hc
    have hle := (ho.numbered.issued _ _ _ hτs).2
    -- two instances of one generation would be the same, but one of them is closed
    have hne : τ.generation ≠ σ.generation := by
      intro he
      rw [hid, he] at hτs
      exact (ho.traced.closed τ hτ).ne hw (ho.numbered.distinct _ _ _ _ hτs hσ.stamp)
    rw [hid] at hle
    omega

theorem Unevicted.store (hu : Unevicted σs gone s) (ho : Orderly σs gone s) {σ : Store}
    (hw : s.writing? t = some σ.ref) (hσ : σ.Fits s) :
    Unevicted (σs ++ [σ]) gone ((s.close t).withStore σ.id σ.ref) := by
  have hself : ((s.close t).withStore σ.id σ.ref).cache.edges.peek? σ.id = some σ.ref :=
    Cache.Recent.peek?_put_self _ _ _
  have hother {id : EdgeId} (hid : id ≠ σ.id) :
      ((s.close t).withStore σ.id σ.ref).cache.edges.peek? id = s.cache.edges.peek? id :=
    Cache.Recent.peek?_put_of_ne _ hu.unbounded hid _
  refine ⟨hu.unbounded, fun τ hτ => ?_, fun id hl => ?_, ?_⟩
  · by_cases hid : τ.id = σ.id
    · exact ⟨σ.ref, hid ▸ hself⟩
    · rw [hother hid]
      rcases List.mem_append.mp hτ with hτ | hτ
      · exact hu.kept τ hτ
      · exact absurd (congrArg Store.id (List.mem_singleton.mp hτ)) hid
  · by_cases hs : s.stamp? σ.ref = some (id, s.generations.last id)
    · have hid := (Prod.mk.inj (Option.some.inj (hσ.stamp.symm.trans hs))).1
      exact Or.inl ⟨σ.ref, hs, hid ▸ hself⟩
    · rcases hu.latest id hl with ⟨ref, hr, hp⟩ | hp
      · refine Or.inl ⟨ref, hr, ?_⟩
        rw [hother, hp]
        -- the latest one is not replaced: a late one is not put, and a current one is the latest
        intro hid
        subst hid
        cases hlate : σ.late with
        | true =>
          rw [hσ.absent hlate] at hp
          cases hp
        | false =>
          have hc := hσ.current
          rw [hlate] at hc
          have hg := (ho.numbered.isCurrent_iff hσ.stamp).mp hc
          exact hs (hg ▸ hσ.stamp)
      · exact Or.inr (hp.close hw hs)
  · refine List.pairwise_append.mpr ⟨hu.rising, List.pairwise_singleton _ _, ?_⟩
    intro τ hτ τ' hτ' hid
    rw [List.mem_singleton.mp hτ'] at hid ⊢
    exact hu.lt_of_fits ho hw hσ hτ hid

end Close

theorem stable_orderly : Stable Orderly where
  same ho h := ho.same h
  activation ho ht purpose record online := ho.withActivation ht purpose record online
  store ho hw hσ :=
    ⟨(ho.numbered.close _).withStore _ _, ho.traced.store ho.numbered hw hσ,
      ho.fresh.store ho.numbered ho.traced hw hσ⟩
  superseded ho hw hs hc :=
    ⟨ho.numbered.close _, ho.traced.close _, ho.fresh.superseded ho.numbered hw hs hc⟩
  abandoned ho hw :=
    ⟨ho.numbered.close _, ho.traced.abandon ho.numbered hw, ho.fresh.abandon hw⟩

/-- Without a bound on the cache its edges succeed each other in the order of their generations. -/
theorem stable_unevicted : Stable fun σs gone s => Orderly σs gone s ∧ Unevicted σs gone s where
  same h hs := ⟨stable_orderly.same h.1 hs, h.2.same hs⟩
  activation h ht purpose record online :=
    ⟨stable_orderly.activation h.1 ht purpose record online,
      h.2.withActivation ht purpose record online⟩
  store h hw hσ := ⟨stable_orderly.store h.1 hw hσ, h.2.store h.1 hw hσ⟩
  superseded h hw hs hc :=
    ⟨stable_orderly.superseded h.1 hw hs hc, h.2.superseded h.1.numbered hw hs hc⟩
  abandoned h hw := ⟨stable_orderly.abandoned h.1 hw, h.2.abandon hw⟩

theorem orderly_start (settings : Settings) : Orderly [] [] (start settings) := by
  refine ⟨⟨?_, ?_, ?_, ?_⟩, ⟨?_, ?_, ?_, ?_, ?_, ?_⟩, ?_⟩
  · intro t ref hw
    cases hw
  · intro t t' ref hw
    cases hw
  · intro ref id g hs
    cases hs
  · intro ref ref' id g hs
    cases hs
  · intro σ hσ
    cases hσ
  · intro σ hσ
    cases hσ
  · intro σ hσ
    cases hσ
  · intro ref hr
    cases hr
  · intro σ hσ
    cases hσ
  · intro id ref hp
    cases hp
  · intro σ hσ
    cases hσ

theorem unevicted_start {settings : Settings} (h : settings.edgeCapacity = none) :
    Unevicted [] [] (start settings) := by
  refine ⟨h, fun σ hσ => absurd hσ List.not_mem_nil, fun id hl => ?_, .nil⟩
  exact absurd hl (Nat.lt_irrefl 0)

theorem orderly_run (settings : Settings) (es : List Event) :
    Orderly (stores ((start settings).moments es)) (abandoned ((start settings).moments es))
      ((start settings).run es) :=
  stable_run stable_orderly (orderly_start settings) es

theorem unevicted_run {settings : Settings} (h : settings.edgeCapacity = none)
    (es : List Event) :
    Unevicted (stores ((start settings).moments es)) (abandoned ((start settings).moments es))
      ((start settings).run es) :=
  (stable_run stable_unevicted ⟨orderly_start settings, unevicted_start h⟩ es).2

end EdgeFleet.Service
