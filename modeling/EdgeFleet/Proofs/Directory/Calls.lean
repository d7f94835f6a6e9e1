import EdgeFleet.Proofs.Directory.Memory
import EdgeFleet.Proofs.Ordered

namespace EdgeFleet.Directory

theorem lastSetting?_append (id : UInt32) (field : Field) (ws more : List Write) :
    lastSetting? id field (ws ++ more) =
      (lastSetting? id field more).or (lastSetting? id field ws) := by
  rw [lastSetting?, List.filter_append, List.getLast?_append]
  rfl

theorem Criterion.meets_iff {c : Criterion} {r : Record} :
    c.meets r = true ↔
      c.operator = "=" ∧ ∃ v, Ordered.get? c.field.key r = some v ∧ v.same c.value = true := by
  rw [meets, Bool.and_eq_true, beq_iff_eq]
  cases Ordered.get? c.field.key r <;> simp

namespace Memory

/-- What can be made to fail. -/
inductive Switch
  | searches
  | reads
  | writes
  deriving DecidableEq

/-- A call of a directory in memory. -/
inductive Call
  | insert (id : UInt32) (r : Record)
  | write (w : Write)
  | read (id : UInt32) (fields : List Field)
  | search (criteria : List Criterion)
  | fail (switch : Switch) (on : Bool)

namespace Call

def apply (m : Memory) : Call → Memory
  | .insert id r => m.insert id r
  | .write w => (m.write w.ids w.field w.value).1
  | .read id fields => (m.read id fields).1
  | .search criteria => (m.search criteria).1
  | .fail .searches on => { m with failSearch := on }
  | .fail .reads on => { m with failReads := on }
  | .fail .writes on => { m with failWrites := on }

def setting? (switch : Switch) : Call → Option Bool
  | .fail other on => if other = switch then some on else none
  | _ => none

/-- The write that the call carries out. -/
def landed (failing : Bool) : Call → List Write
  | .write w => if failing then [] else [w]
  | _ => []

end Call

def afterAll (m : Memory) (calls : List Call) : Memory := calls.foldl Call.apply m

def failing (m : Memory) : Switch → Bool
  | .searches => m.failSearch
  | .reads => m.failReads
  | .writes => m.failWrites

/-- How a switch is set after some calls: as the last of them sets it, or as it was at first. -/
def fails (switch : Switch) (first : Bool) (calls : List Call) : Bool :=
  (calls.filterMap (Call.setting? switch)).getLast?.getD first

/-- The writes that some calls carry out, in order. -/
def landed (failing : Bool) : List Call → List Write
  | [] => []
  | c :: rest => c.landed failing ++ landed ((c.setting? .writes).getD failing) rest

/-- A record was last inserted under an identifier, and some writes were carried out since. -/
def Standing (calls : List Call) (id : UInt32) (r : Record) (ws : List Write) : Prop :=
  ∃ before after, calls = before ++ .insert id r :: after ∧ (∀ r', .insert id r' ∉ after) ∧
    ws = landed (fails .writes false before) after

/-- The value that a field of a record has: that of the last write of it, or as it was inserted. -/
def kept? (id : UInt32) (r : Record) (ws : List Write) (field : Field) : Option Json :=
  ((lastSetting? id field ws).map (·.value)).or
    (if field = .id then some (.ofNat id.toNat) else Ordered.get? field.key r)

section Step

variable (m : Memory) (c : Call)

theorem failing_apply (switch : Switch) :
    (c.apply m).failing switch = (c.setting? switch).getD (m.failing switch) := by
  cases c with
  | insert => rfl
  | read => rfl
  | search => rfl
  | fail changed on => cases changed <;> cases switch <;> rfl
  | write w =>
    simp only [Call.apply, write]
    split <;> rfl

theorem writes_apply : (c.apply m).writes = m.writes ++ c.landed m.failWrites := by
  cases c with
  | insert => exact (List.append_nil _).symm
  | read => exact (List.append_nil _).symm
  | search => exact (List.append_nil _).symm
  | fail changed on => cases changed <;> exact (List.append_nil _).symm
  | write w =>
    simp only [Call.apply, write, Call.landed]
    split
    · exact (List.append_nil _).symm
    · rfl

variable {m}

theorem isSome_record?_write_iff (w : Write) (id : UInt32) :
    ((m.write w.ids w.field w.value).1.record? id).isSome = (m.record? id).isSome := by
  cases hf : m.failWrites with
  | false => exact isSome_record?_write hf _ _ _ _
  | true => rw [write_of_failWrites hf]

theorem isSome_record?_apply (id : UInt32) :
    ((c.apply m).record? id).isSome = true ↔
      (m.record? id).isSome = true ∨ ∃ r, c = .insert id r := by
  cases c with
  | read => simp [Call.apply, read, record?]
  | search => simp [Call.apply, search, record?]
  | fail changed on => cases changed <;> simp [Call.apply, record?]
  | write w => simp [Call.apply, isSome_record?_write_iff]
  | insert other r =>
    rw [Call.apply]
    by_cases h : id = other
    · subst h
      simp [record?_insert_self]
    · rw [record?_insert_of_ne m h]
      simp [Ne.symm h]

/-- What a call that does not insert the record makes of its fields. -/
theorem value?_apply {id : UInt32} (hr : (m.record? id).isSome = true)
    (hc : ∀ r, c ≠ .insert id r) (field : Field) :
    (c.apply m).value? id field =
      ((lastSetting? id field (c.landed m.failWrites)).map (·.value)).or (m.value? id field) := by
  cases c with
  | read => rfl
  | search => rfl
  | fail changed on => cases changed <;> rfl
  | insert other r =>
    have hne : id ≠ other := fun h => hc r (h ▸ rfl)
    rw [Call.apply, value?, record?_insert_of_ne m hne]
    rfl
  | write w =>
    rw [Call.apply, Call.landed]
    cases hf : m.failWrites with
    | true =>
      rw [write_of_failWrites hf]
      rfl
    | false =>
      rw [value?_write hf hr]
      by_cases hw : w.Sets id field <;> simp [lastSetting?, hw]

theorem ascending_store {records : List (UInt32 × Record)} (id : UInt32) (field : Field)
    (value : Json) (h : Ordered.Ascending (records.map (·.1))) :
    Ordered.Ascending ((store records id field value).map (·.1)) := by
  rw [store]
  split
  · exact h
  · exact Ordered.ascending_insert _ _ h

theorem ascending_storeAll {records : List (UInt32 × Record)} (ids : List UInt32) (field : Field)
    (value : Json) (h : Ordered.Ascending (records.map (·.1))) :
    Ordered.Ascending ((ids.foldl (fun records id => store records id field value) records).map
      (·.1)) := by
  induction ids generalizing records with
  | nil => exact h
  | cons id rest ih => exact ih (ascending_store id field value h)

theorem ascending_apply (h : Ordered.Ascending (m.records.map (·.1))) :
    Ordered.Ascending ((c.apply m).records.map (·.1)) := by
  cases c with
  | insert id r => exact Ordered.ascending_insert _ _ h
  | read => exact h
  | search => exact h
  | fail changed on => cases changed <;> exact h
  | write w =>
    rw [Call.apply, write]
    split
    · exact h
    · exact ascending_storeAll w.ids w.field w.value h

end Step

section Run

theorem fails_cons (switch : Switch) (first : Bool) (c : Call) (rest : List Call) :
    fails switch first (c :: rest) = fails switch ((c.setting? switch).getD first) rest := by
  cases h : c.setting? switch with
  | none => simp [fails, h]
  | some on => simp [fails, h, List.getLast?_cons]

theorem failing_afterAll (m : Memory) (calls : List Call) (switch : Switch) :
    (m.afterAll calls).failing switch = fails switch (m.failing switch) calls := by
  induction calls generalizing m with
  | nil => rfl
  | cons c rest ih =>
    rw [fails_cons, ← failing_apply]
    exact ih (c.apply m)

theorem writes_afterAll (m : Memory) (calls : List Call) :
    (m.afterAll calls).writes = m.writes ++ landed m.failWrites calls := by
  induction calls generalizing m with
  | nil => exact (List.append_nil _).symm
  | cons c rest ih =>
    have hfail : (c.apply m).failWrites = (c.setting? .writes).getD m.failWrites :=
      failing_apply m c .writes
    rw [landed, ← hfail, ← List.append_assoc, ← writes_apply]
    exact ih (c.apply m)

theorem isSome_record?_afterAll (m : Memory) (calls : List Call) (id : UInt32) :
    ((m.afterAll calls).record? id).isSome = true ↔
      (m.record? id).isSome = true ∨ ∃ r, .insert id r ∈ calls := by
  induction calls generalizing m with
  | nil => simp [afterAll]
  | cons c rest ih =>
    rw [afterAll, List.foldl_cons, ← afterAll, ih, isSome_record?_apply, or_assoc, ← exists_or]
    simp only [List.mem_cons, eq_comm]

theorem ascending_afterAll {m : Memory} (h : Ordered.Ascending (m.records.map (·.1)))
    (calls : List Call) : Ordered.Ascending ((m.afterAll calls).records.map (·.1)) := by
  induction calls generalizing m with
  | nil => exact h
  | cons c rest ih => exact ih (ascending_apply c h)

/-- Until the record is inserted again, the last write of a field decides its value. -/
theorem value?_afterAll {m : Memory} {id : UInt32} (hr : (m.record? id).isSome = true)
    {calls : List Call} (hn : ∀ r, .insert id r ∉ calls) (field : Field) :
    (m.afterAll calls).value? id field =
      ((lastSetting? id field (landed m.failWrites calls)).map (·.value)).or
        (m.value? id field) := by
  induction calls generalizing m with
  | nil => rfl
  | cons c rest ih =>
    have hc : ∀ r, c ≠ .insert id r := fun r h => hn r (h ▸ List.mem_cons_self)
    have hrest : ∀ r, .insert id r ∉ rest := fun r h => hn r (List.mem_cons_of_mem c h)
    have hthere := (isSome_record?_apply c id).mpr (Or.inl hr)
    have hfail : (c.apply m).failWrites = (c.setting? .writes).getD m.failWrites :=
      failing_apply m c .writes
    have hvalue := ih hthere hrest
    rw [value?_apply c hr hc, hfail] at hvalue
    rw [landed, lastSetting?_append, Option.map_or, Option.or_assoc]
    exact hvalue

end Run

section Standing

variable {calls : List Call} {id : UInt32} {r : Record} {ws : List Write}

theorem Standing.concat (h : Standing calls id r ws) {c : Call} (hc : ∀ r', c ≠ .insert id r') :
    ∃ ws', Standing (calls ++ [c]) id r ws' := by
  obtain ⟨before, after, rfl, hn, -⟩ := h
  refine ⟨_, before, after ++ [c], by simp, fun r' hmem => ?_, rfl⟩
  rcases List.mem_append.mp hmem with hmem | hmem
  · exact hn r' hmem
  · exact hc r' (List.mem_singleton.mp hmem).symm

theorem exists_standing (h : .insert id r ∈ calls) : ∃ r ws, Standing calls id r ws := by
  induction calls using List.reverseRecOn with
  | nil => cases h
  | append_singleton calls c ih =>
    by_cases hc : ∃ r', c = .insert id r'
    · obtain ⟨r', rfl⟩ := hc
      exact ⟨r', [], calls, [], rfl, fun _ => List.not_mem_nil, rfl⟩
    · have hne : ∀ r', c ≠ .insert id r' := fun r' he => hc ⟨r', he⟩
      rcases List.mem_append.mp h with h | h
      · obtain ⟨r', ws, hs⟩ := ih h
        exact ⟨r', hs.concat hne⟩
      · exact absurd (List.mem_singleton.mp h).symm (hne r)

theorem Standing.isSome_record? (h : Standing calls id r ws) :
    ((afterAll {} calls).record? id).isSome = true := by
  obtain ⟨before, after, rfl, -, -⟩ := h
  exact (isSome_record?_afterAll _ _ _).mpr (Or.inr ⟨r, by simp⟩)

theorem Standing.value? (h : Standing calls id r ws) (field : Field) :
    (afterAll {} calls).value? id field = kept? id r ws field := by
  obtain ⟨before, after, rfl, hn, rfl⟩ := h
  let m : Memory := afterAll {} before
  have hsplit : afterAll {} (before ++ .insert id r :: after) = (m.insert id r).afterAll after := by
    rw [afterAll, List.foldl_append]
    rfl
  have hthere : ((m.insert id r).record? id).isSome = true := by simp [record?_insert_self]
  have hfail : (m.insert id r).failWrites = fails .writes false before :=
    failing_afterAll {} before .writes
  have hvalue : (m.insert id r).value? id field =
      if field = .id then some (.ofNat id.toNat) else Ordered.get? field.key r := by
    rw [Memory.value?, record?_insert_self, Option.bind_some]
    split
    · rename_i hf
      rw [hf, Ordered.get?_insert_self]
    · rename_i hf
      exact Ordered.get?_insert_of_ne (fun he => hf (Field.key_injective he)) _ _
  rw [hsplit, value?_afterAll hthere hn, hfail, hvalue, kept?]

end Standing

section Select

variable (id : UInt32) (fields : List Field) (r : Record)

theorem select_concat (field : Field) :
    select id (fields ++ [field]) r =
      Ordered.insert field.key ((Ordered.get? field.key r).getD (.bool false))
        (select id fields r) := List.foldl_append

theorem ascending_select : Ordered.Ascending ((select id fields r).map (·.1)) := by
  induction fields using List.reverseRecOn with
  | nil => exact List.pairwise_singleton _ _
  | append_singleton fields field ih =>
    rw [select_concat]
    exact Ordered.ascending_insert _ _ ih

theorem mem_keys_select {key : String} :
    key ∈ (select id fields r).map (·.1) ↔ key = Field.id.key ∨ ∃ f ∈ fields, key = f.key := by
  induction fields using List.reverseRecOn with
  | nil => simp [select]
  | append_singleton fields field ih =>
    rw [select_concat, Ordered.mem_keys_insert, ih]
    simp only [List.mem_append, List.mem_singleton, or_and_right, exists_or, exists_eq_left]
    exact or_comm.trans or_assoc

theorem get?_select (field : Field) :
    Ordered.get? field.key (select id fields r) =
      if field ∈ fields then some ((Ordered.get? field.key r).getD (.bool false))
      else if field = .id then some (.ofNat id.toNat) else none := by
  induction fields using List.reverseRecOn with
  | nil =>
    by_cases hf : field = .id
    · subst hf
      rfl
    · have hne : field.key ≠ Field.id.key := fun he => hf (Field.key_injective he)
      simp [select, Ordered.get?_cons_of_ne hne, hf]
  | append_singleton fields last ih =>
    rw [select_concat]
    by_cases hl : field = last
    · subst hl
      simp [Ordered.get?_insert_self]
    · rw [Ordered.get?_insert_of_ne fun he => hl (Field.key_injective he), ih]
      simp [hl]

end Select

/-- What a reading of a record shows: its number, and of the fields asked for what is kept of them. -/
structure Shows (shown : Record) (id : UInt32) (fields : List Field) (kept? : Field → Option Json) :
    Prop where
  ascending : Ordered.Ascending (shown.map (·.1))
  keys : ∀ key, key ∈ shown.map (·.1) ↔ key = Field.id.key ∨ ∃ f ∈ fields, key = f.key
  asked : ∀ f ∈ fields, Ordered.get? f.key shown = some ((kept? f).getD (.bool false))
  number : .id ∉ fields → Ordered.get? Field.id.key shown = some (.ofNat id.toNat)

/-- What a directory in memory answers and keeps, told from the calls so far. -/
structure Told (m : Memory) (calls : List Call) : Prop where
  /-- Each identifier has a record, the last one inserted, or never had one. -/
  known : ∀ id, (∃ r ws, Standing calls id r ws) ∨ ∀ r, .insert id r ∉ calls
  read : fails .reads false calls = false → ∀ id fields,
    (∀ r ws, Standing calls id r ws →
      ∃ shown, (m.read id fields).2 = .ok shown ∧ Shows shown id fields (kept? id r ws)) ∧
    ((∀ r, .insert id r ∉ calls) → (m.read id fields).2 = .error (.notFound id))
  search : fails .searches false calls = false → ∀ criteria,
    ∃ ids, (m.search criteria).2 = .ok ids ∧ ids.Pairwise (· < ·) ∧
      ∀ id, id ∈ ids ↔ ∃ r ws, Standing calls id r ws ∧ ∀ c ∈ criteria,
        c.operator = "=" ∧ ∃ v, kept? id r ws c.field = some v ∧ v.same c.value = true
  /-- A write makes no record, whether it fails or not. -/
  write : ∀ w : Write, (∀ id, (∀ r, .insert id r ∉ calls) →
      (m.write w.ids w.field w.value).1.record? id = none) ∧
    (m.write w.ids w.field w.value).2 =
      if fails .writes false calls then .error (.remote 200 "write rejected") else .ok true
  log : m.writes = landed false calls
  /-- What is made to fail does fail, and a write that fails changes nothing. -/
  failed : (fails .reads false calls = true →
      ∀ id fields, (m.read id fields).2 = .error (.transport "read timed out")) ∧
    (fails .searches false calls = true →
      ∀ criteria, (m.search criteria).2 = .error (.transport "connection refused")) ∧
    (fails .writes false calls = true →
      ∀ w : Write, (m.write w.ids w.field w.value).1 = m)

section Told

variable {m : Memory}

theorem read_of_record? (hf : m.failReads = false) {id : UInt32} {r : Record}
    (hr : m.record? id = some r) (fields : List Field) :
    (m.read id fields).2 = .ok (select id fields r) := by
  simp [read, hf, hr]

theorem shows_select {id : UInt32} {r : Record} (hr : m.record? id = some r) (fields : List Field) :
    Shows (select id fields r) id fields (m.value? id) := by
  refine ⟨ascending_select id fields r, fun key => mem_keys_select id fields r, fun f hf => ?_,
    fun hf => ?_⟩
  · rw [get?_select, if_pos hf, value?, hr]
    rfl
  · rw [get?_select, if_neg hf, if_pos rfl]

theorem search_ok (hf : m.failSearch = false) (h : Ordered.Ascending (m.records.map (·.1)))
    (criteria : List Criterion) :
    ∃ ids, (m.search criteria).2 = .ok ids ∧ ids.Pairwise (· < ·) ∧
      ∀ id, id ∈ ids ↔ ∃ r, m.record? id = some r ∧ ∀ c ∈ criteria, c.meets r = true := by
  have hids : (m.search criteria).2 =
      .ok ((m.records.filter fun p => criteria.all (·.meets p.2)).map (·.1)) := by
    simp [search, hf]
  refine ⟨_, hids, ?_, fun id => ?_⟩
  · have hsub : ((m.records.filter fun p => criteria.all (·.meets p.2)).map (·.1)).Sublist
        (m.records.map (·.1)) := List.filter_sublist.map _
    exact (h.sublist hsub).imp fun hlt => Std.compare_eq_lt.mp (Ordering.isLT_iff_eq_lt.mp hlt)
  · simp only [List.mem_map, List.mem_filter, List.all_eq_true, Prod.exists, exists_and_right,
      exists_eq_right, Ordered.mem_iff_get? h, record?]

variable {calls : List Call} {id : UInt32} {r : Record} {ws : List Write}

theorem record?_of_never (h : ∀ r, .insert id r ∉ calls) :
    (afterAll {} calls).record? id = none := by
  rw [← Option.not_isSome_iff_eq_none, isSome_record?_afterAll]
  rintro (hs | ⟨r, hr⟩)
  · cases hs
  · exact h r hr

theorem exists_standing_of_record? (h : (afterAll {} calls).record? id = some r) :
    ∃ r' ws, Standing calls id r' ws := by
  have hs : ((afterAll {} calls).record? id).isSome = true := by rw [h, Option.isSome_some]
  rcases (isSome_record?_afterAll {} calls id).mp hs with hs | ⟨r', hr⟩
  · cases hs
  · exact exists_standing hr

theorem standing_or_never (calls : List Call) (id : UInt32) :
    (∃ r ws, Standing calls id r ws) ∨ ∀ r, .insert id r ∉ calls := by
  by_cases h : ∃ r, .insert id r ∈ calls
  · obtain ⟨r, hr⟩ := h
    exact Or.inl (exists_standing hr)
  · right
    intro r hr
    exact h ⟨r, hr⟩

theorem Standing.shows (h : Standing calls id r ws) (hf : (afterAll {} calls).failReads = false)
    (fields : List Field) : ∃ shown, ((afterAll {} calls).read id fields).2 = .ok shown ∧
      Shows shown id fields (kept? id r ws) := by
  obtain ⟨record, hrecord⟩ := Option.isSome_iff_exists.mp h.isSome_record?
  refine ⟨select id fields record, read_of_record? hf hrecord fields, ?_⟩
  rw [← funext h.value?]
  exact shows_select hrecord fields

theorem Standing.meets_iff (h : Standing calls id r ws) {record : Record}
    (hrecord : (afterAll {} calls).record? id = some record) (c : Criterion) :
    c.meets record = true ↔
      c.operator = "=" ∧ ∃ v, kept? id r ws c.field = some v ∧ v.same c.value = true := by
  rw [Criterion.meets_iff, ← h.value?, Memory.value?, hrecord, Option.bind_some]

theorem found_iff {criteria : List Criterion} :
    (∃ record, (afterAll {} calls).record? id = some record ∧
      ∀ c ∈ criteria, c.meets record = true) ↔
    ∃ r ws, Standing calls id r ws ∧ ∀ c ∈ criteria,
      c.operator = "=" ∧ ∃ v, kept? id r ws c.field = some v ∧ v.same c.value = true := by
  constructor
  · rintro ⟨record, hrecord, hmeets⟩
    obtain ⟨r, ws, hs⟩ := exists_standing_of_record? hrecord
    exact ⟨r, ws, hs, fun c hc => (hs.meets_iff hrecord c).mp (hmeets c hc)⟩
  · rintro ⟨r, ws, hs, hmeets⟩
    obtain ⟨record, hrecord⟩ := Option.isSome_iff_exists.mp hs.isSome_record?
    exact ⟨record, hrecord, fun c hc => (hs.meets_iff hrecord c).mpr (hmeets c hc)⟩

end Told

/-- A directory in memory is told from its calls. -/
theorem told_by_calls (calls : List Call) : Told (afterAll {} calls) calls where
  known := standing_or_never calls
  read hf id fields := by
    have hreads : (afterAll {} calls).failReads = false :=
      (failing_afterAll {} calls .reads).trans hf
    constructor
    · intro r ws hs
      exact hs.shows hreads fields
    · intro hn
      simp [Memory.read, hreads, record?_of_never hn]
  search hf criteria := by
    have hsearches : (afterAll {} calls).failSearch = false :=
      (failing_afterAll {} calls .searches).trans hf
    have hascending := ascending_afterAll (m := {}) List.Pairwise.nil calls
    obtain ⟨ids, hids, hsorted, hmem⟩ := search_ok hsearches hascending criteria
    exact ⟨ids, hids, hsorted, fun id => (hmem id).trans found_iff⟩
  write w := by
    have hwrites : (afterAll {} calls).failWrites = fails .writes false calls :=
      failing_afterAll {} calls .writes
    constructor
    · intro id hn
      rw [← Option.not_isSome_iff_eq_none, isSome_record?_write_iff, record?_of_never hn]
      exact Bool.false_ne_true
    · rw [← hwrites, Memory.write]
      split <;> rfl
  log := writes_afterAll {} calls
  failed := by
    refine ⟨fun hf id fields => ?_, fun hf criteria => ?_, fun hf w => ?_⟩
    · have hreads : (afterAll {} calls).failReads = true :=
        (failing_afterAll {} calls .reads).trans hf
      rw [Memory.read, if_pos hreads]
    · have hsearches : (afterAll {} calls).failSearch = true :=
        (failing_afterAll {} calls .searches).trans hf
      rw [Memory.search, if_pos hsearches]
    · exact write_of_failWrites ((failing_afterAll {} calls .writes).trans hf) _ _ _

end Memory

end EdgeFleet.Directory
