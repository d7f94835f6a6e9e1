import EdgeFleet.Proofs.Service.Advance
import EdgeFleet.Proofs.Service.Provenance
import Mathlib.Data.List.Nodup
import Mathlib.Data.List.Perm.Basic

namespace EdgeFleet.Service

/-- The refresh in the background that an action starts. -/
def Action.started? : Action → Option Nat
  | .queue (.warmUp k) => some k
  | _ => none

/-- The refresh in the background that an action ends. -/
def Action.ended? : Action → Option Nat
  | .finish (.warmUp k) _ => some k
  | _ => none

def startedBy (actions : List Action) : List Nat := actions.filterMap Action.started?

def endedBy (actions : List Action) : List Nat := actions.filterMap Action.ended?

def startedIn (ms : List Moment) : List Nat := ms.flatMap fun m => startedBy m.actions

def endedIn (ms : List Moment) : List Nat := ms.flatMap fun m => endedBy m.actions

/-- The refreshes that have started in a run and not ended. -/
def underway (ms : List Moment) : List Nat := (startedIn ms).filter (· ∉ endedIn ms)

theorem startedIn_concat (ms : List Moment) (s : Service) (e : Event) :
    startedIn (ms ++ [⟨s, e⟩]) = startedIn ms ++ startedBy (s.step e).2 := by
  simp only [startedIn, List.flatMap_append, List.flatMap_cons, List.flatMap_nil, List.append_nil]
  rfl

theorem endedIn_concat (ms : List Moment) (s : Service) (e : Event) :
    endedIn (ms ++ [⟨s, e⟩]) = endedIn ms ++ endedBy (s.step e).2 := by
  simp only [endedIn, List.flatMap_append, List.flatMap_cons, List.flatMap_nil, List.append_nil]
  rfl

/-- The refreshes that start have the next tickets and take a permit each, and those that end were under
way and give one back. -/
structure Shift (s : Service) (r : Service × List Action) : Prop where
  started : startedBy r.2 = List.range' s.warmUps (startedBy r.2).length
  ended : (endedBy r.2).Nodup
  running : ∀ k ∈ endedBy r.2, ∃ task, s.task? (.warmUp k) = some task
  warmUps : r.1.warmUps = s.warmUps + (startedBy r.2).length
  permits : r.1.permits + (startedBy r.2).length = s.permits + (endedBy r.2).length
  tasks : ∀ k, (∃ task, r.1.task? (.warmUp k) = some task) ↔
    ((∃ task, s.task? (.warmUp k) = some task) ∧ k ∉ endedBy r.2) ∨ k ∈ startedBy r.2

section Shift

variable {s : Service} {r : Service × List Action}

theorem Shift.of_none (hs : startedBy r.2 = []) (he : endedBy r.2 = [])
    (warmUps : r.1.warmUps = s.warmUps) (permits : r.1.permits = s.permits)
    (tasks : ∀ k, (∃ task, r.1.task? (.warmUp k) = some task) ↔
      ∃ task, s.task? (.warmUp k) = some task) : Shift s r := by
  refine ⟨?_, ?_, ?_, ?_, ?_, ?_⟩
  · rw [hs]
    rfl
  · rw [he]
    exact List.nodup_nil
  · intro k hk
    rw [he] at hk
    cases hk
  · rw [hs, warmUps]
    rfl
  · rw [hs, he, permits]
  · intro k
    rw [hs, he, tasks k]
    simp

theorem Moved.startedBy_eq_nil {t : Ticket} (h : Moved t s r) : startedBy r.2 = [] := by
  cases h with
  | ends answer tasks warmUps permits actions =>
    rw [actions]
    rfl
  | waits task suits request asks tasks warmUps permits actions =>
    rw [actions]
    cases request <;> first | rfl | cases asks

theorem Moved.shift {t : Ticket} (h : Moved t s r)
    (hw : ∀ k, t = .warmUp k → (s.task? t).isSome = true) : Shift s r := by
  have hother (k : Nat) (hk : t ≠ .warmUp k) : r.1.task? (.warmUp k) = s.task? (.warmUp k) :=
    h.task?_of_ne fun he => hk he.symm
  have hstarted := h.startedBy_eq_nil
  cases h with
  | ends answer tasks warmUps permits actions =>
    cases t with
    | call n =>
      have hended : endedBy r.2 = [] := by rw [actions]; rfl
      refine .of_none hstarted hended warmUps permits fun k => ?_
      rw [hother k Ticket.noConfusion]
    | warmUp j =>
      have hended : endedBy r.2 = [j] := by rw [actions]; rfl
      have hgone : r.1.task? (.warmUp j) = none := by
        rw [task?, tasks]
        exact task?_close_self s _
      refine ⟨?_, ?_, ?_, ?_, ?_, ?_⟩
      · rw [hstarted]
        rfl
      · rw [hended]
        exact List.nodup_singleton j
      · intro k hk
        rw [hended, List.mem_singleton] at hk
        subst hk
        exact Option.isSome_iff_exists.mp (hw k rfl)
      · rw [hstarted, warmUps]
        rfl
      · rw [hstarted, hended, permits]
        rfl
      · intro k
        rw [hstarted, hended, List.mem_singleton]
        by_cases hk : k = j
        · subst hk
          simp [hgone]
        · have hne : Ticket.warmUp j ≠ .warmUp k := by
            intro he
            injection he with he
            exact hk he.symm
          rw [hother k hne]
          simp [hk]
  | waits task suits request asks tasks warmUps permits actions =>
    have hended : endedBy r.2 = [] := by
      rw [actions]
      cases request <;> first | rfl | cases asks
    refine .of_none hstarted hended warmUps permits fun k => ?_
    by_cases hk : t = .warmUp k
    · have hnow : r.1.task? t = some task := by
        rw [task?, tasks]
        exact task?_await_self s t task
      rw [← hk]
      exact iff_of_true ⟨task, hnow⟩ (Option.isSome_iff_exists.mp (hw k hk))
    · rw [hother k hk]

theorem startedBy_queues (ks : List Nat) :
    startedBy (ks.map fun k => .queue (.warmUp k)) = ks := by
  induction ks with
  | nil => rfl
  | cons k rest ih => exact congrArg (k :: ·) ih

theorem endedBy_queues (ks : List Nat) : endedBy (ks.map fun k => .queue (.warmUp k)) = [] := by
  induction ks with
  | nil => rfl
  | cons k rest ih => exact ih

theorem Started.shift {n : Nat} {ids : List EdgeId} {q : Service × List Action}
    (h : Started (s.close (.call n)) ids q) (answer : Answer) :
    Shift s (q.1, q.2 ++ [.finish (.call n) answer]) := by
  have hstarted : startedBy (q.2 ++ [.finish (.call n) answer]) =
      List.range' s.warmUps ids.length := by
    rw [startedBy, List.filterMap_append, h.actions]
    exact (List.append_nil _).trans (startedBy_queues _)
  have hended : endedBy (q.2 ++ [.finish (.call n) answer]) = [] := by
    rw [endedBy, List.filterMap_append, h.actions]
    exact (List.append_nil _).trans (endedBy_queues _)
  refine ⟨?_, ?_, ?_, ?_, ?_, ?_⟩
  · rw [hstarted, List.length_range']
  · rw [hended]
    exact List.nodup_nil
  · intro k hk
    rw [hended] at hk
    cases hk
  · rw [hstarted, List.length_range']
    exact h.warmUps
  · rw [hstarted, hended, List.length_range']
    exact h.permits
  · intro k
    rw [hstarted, hended, List.mem_range'_1]
    by_cases hk : s.warmUps ≤ k ∧ k < s.warmUps + ids.length
    · have hi : k - s.warmUps < ids.length := by omega
      have hq := h.queued (k - s.warmUps) _ (List.getElem?_eq_getElem hi)
      have hsum : (s.close (.call n)).warmUps + (k - s.warmUps) = k := Nat.add_sub_of_le hk.1
      rw [hsum] at hq
      exact iff_of_true ⟨_, hq⟩ (Or.inr hk)
    · have hold : q.1.task? (.warmUp k) = s.task? (.warmUp k) := by
        refine (h.others _ fun i hi he => ?_).trans ?_
        · injection he with he
          have he' : k = s.warmUps + i := he
          omega
        · exact task?_close_of_ne s Ticket.noConfusion
      rw [hold]
      simp [hk]

theorem none_of_rests {actions : List Action}
    (h : ∀ a ∈ actions, (∃ owner b, a = .writeBatch owner b) ∨ ∃ n, a = .finish (.call n) .done) :
    startedBy actions = [] ∧ endedBy actions = [] := by
  constructor
  · apply List.filterMap_eq_nil_iff.mpr
    intro a ha
    rcases h a ha with ⟨owner, b, rfl⟩ | ⟨n, rfl⟩
    · rfl
    · rfl
  · apply List.filterMap_eq_nil_iff.mpr
    intro a ha
    rcases h a ha with ⟨owner, b, rfl⟩ | ⟨n, rfl⟩
    · rfl
    · rfl

theorem Move.shift {e : Event} (h : Move s e r) : Shift s r := by
  cases h with
  | rests tasks warmUps permits actions =>
    obtain ⟨hstarted, hended⟩ := none_of_rests actions
    refine .of_none hstarted hended warmUps permits fun k => ?_
    rw [task?, tasks, task?]
  | moves t own waited h => exact h.shift waited
  | drops n he hr =>
    subst hr
    refine .of_none rfl rfl rfl rfl fun k => ?_
    rw [task?_close_of_ne s Ticket.noConfusion]
  | starts n ids he ht h hr =>
    subst hr
    exact h.shift _

end Shift

/-- The account of the refreshes in the background. -/
structure Tally (settings : Settings) (ms : List Moment) (s : Service) : Prop where
  started : startedIn ms = List.range s.warmUps
  ended : (endedIn ms).Nodup
  below : ∀ k ∈ endedIn ms, k < s.warmUps
  running : ∀ k, (∃ task, s.task? (.warmUp k) = some task) ↔ k < s.warmUps ∧ k ∉ endedIn ms
  total : s.permits + s.warmUps = settings.refreshPermits + (endedIn ms).length

theorem Tally.shift {settings : Settings} {ms : List Moment} {s : Service}
    (hl : Tally settings ms s) {e : Event} (h : Shift s (s.step e)) :
    Tally settings (ms ++ [⟨s, e⟩]) (s.step e).1 := by
  have hnew (k : Nat) (hk : k ∈ startedBy (s.step e).2) :
      s.warmUps ≤ k ∧ k < s.warmUps + (startedBy (s.step e).2).length := by
    rw [h.started] at hk
    exact List.mem_range'_1.mp hk
  have hrunning (k : Nat) (hk : k ∈ endedBy (s.step e).2) : k < s.warmUps ∧ k ∉ endedIn ms :=
    (hl.running k).mp (h.running k hk)
  have htotal := hl.total
  have hpermits := h.permits
  have hwarmUps := h.warmUps
  refine ⟨?_, ?_, ?_, ?_, ?_⟩
  · have happend : List.range' 0 s.warmUps ++
        List.range' (0 + s.warmUps) (startedBy (s.step e).2).length = List.range' 0 _ :=
      List.range'_append_1
    rw [Nat.zero_add, ← h.started] at happend
    rw [startedIn_concat, hl.started, hwarmUps, List.range_eq_range', List.range_eq_range']
    exact happend
  · rw [endedIn_concat]
    refine List.Nodup.append hl.ended h.ended fun k hk hk' => ?_
    exact (hrunning k hk').2 hk
  · intro k hk
    rw [hwarmUps]
    rw [endedIn_concat] at hk
    rcases List.mem_append.mp hk with hk | hk
    · exact Nat.lt_add_right _ (hl.below k hk)
    · exact Nat.lt_add_right _ (hrunning k hk).1
  · -- under way are those that were and do not end now, and those that start now
    intro k
    rw [h.tasks, hl.running, hwarmUps, endedIn_concat, List.mem_append]
    have hmem : k ∈ startedBy (s.step e).2 ↔
        s.warmUps ≤ k ∧ k < s.warmUps + (startedBy (s.step e).2).length := by
      refine ⟨hnew k, fun hk => ?_⟩
      rw [h.started]
      exact List.mem_range'_1.mpr hk
    rw [hmem]
    constructor
    · rintro (⟨⟨hlt, hm⟩, hk⟩ | ⟨hle, hlt⟩)
      · refine ⟨Nat.lt_add_right _ hlt, ?_⟩
        rintro (hk' | hk')
        · exact hm hk'
        · exact hk hk'
      · refine ⟨hlt, ?_⟩
        rintro (hk | hk)
        · exact absurd (hl.below k hk) (Nat.not_lt_of_le hle)
        · exact absurd (hrunning k hk).1 (Nat.not_lt_of_le hle)
    · rintro ⟨hlt, hk⟩
      rcases Nat.lt_or_ge k s.warmUps with hold | hnew
      · exact Or.inl ⟨⟨hold, fun hm => hk (Or.inl hm)⟩, fun hm => hk (Or.inr hm)⟩
      · exact Or.inr ⟨hnew, hlt⟩
  · rw [endedIn_concat, List.length_append]
    omega

theorem tally_start (settings : Settings) : Tally settings [] (start settings) := by
  refine ⟨rfl, List.nodup_nil, fun k hk => absurd hk List.not_mem_nil, fun k => ?_, rfl⟩
  apply iff_of_false
  · rintro ⟨task, ht⟩
    cases ht
  · rintro ⟨hlt, -⟩
    exact absurd hlt (Nat.not_lt_zero k)

theorem tally_run (settings : Settings) (es : List Event) :
    Tally settings ((start settings).moments es) ((start settings).run es) := by
  -- what a task may wait for is carried along, since it decides who holds a permit
  refine (run_induct (P := fun ms s => Suited s ∧ Tally settings ms s) es
    ⟨suited_start settings, tally_start settings⟩ ?_).2
  rintro ms s e - ha ⟨hs, hl⟩
  have hm := move_step ha hs e
  exact ⟨hm.suited hs, hl.shift hm.shift⟩

theorem Tally.length_underway {settings : Settings} {ms : List Moment} {s : Service}
    (hl : Tally settings ms s) : (underway ms).length + (endedIn ms).length = s.warmUps := by
  -- the tickets that were handed out are split into those that have ended and the others
  have hperm : ((List.range s.warmUps).filter (· ∈ endedIn ms)).Perm (endedIn ms) := by
    refine (List.perm_ext_iff_of_nodup (List.nodup_range.filter _) hl.ended).mpr fun k => ?_
    rw [List.mem_filter, List.mem_range, decide_eq_true_eq]
    exact ⟨And.right, fun hk => ⟨hl.below k hk, hk⟩⟩
  have hsplit := List.length_eq_length_filter_add (l := List.range s.warmUps)
    (fun k => decide (k ∈ endedIn ms))
  have hnot : (List.range s.warmUps).filter (fun k => !decide (k ∈ endedIn ms)) = underway ms := by
    rw [underway, hl.started]
    simp only [decide_not]
  rw [hnot, hperm.length_eq, List.length_range] at hsplit
  omega

theorem map_value_validIds (ids : List UInt32) :
    (validIds ids).map (·.value) = ids.filter (· ≠ 0) := by
  induction ids with
  | nil => rfl
  | cons id rest ih =>
    by_cases h : id = 0
    · have hv : validIds (id :: rest) = validIds rest := by
        simp [validIds, RecordId.ofWord, h, Except.toOption]
      rw [hv, ih, h]
      rfl
    · have hv : validIds (id :: rest) = ⟨id, h⟩ :: validIds rest := by
        simp [validIds, RecordId.ofWord, h, Except.toOption]
      rw [hv, List.map_cons, ih, List.filter_cons_of_pos]
      exact decide_eq_true h

/-- A call has found edges and is answered with them; refreshes have started of as many as there were
permits, from the first one on. -/
structure Warmed (s : Service) (n : Nat) (found : List EdgeId) (r : Service × List Action) :
    Prop where
  actions : r.2 = (List.range' s.warmUps (min found.length s.permits)).map (fun k =>
    .queue (.warmUp k)) ++ [.finish (.call n) (.edgeIds found)]
  permits : r.1.permits = s.permits - min found.length s.permits
  queued : ∀ i < min found.length s.permits, ∃ id, found[i]? = some id ∧
    r.1.task? (.warmUp (s.warmUps + i)) = some (.queued id)
  others : ∀ k, (∀ i < min found.length s.permits, k ≠ s.warmUps + i) →
    r.1.task? (.warmUp k) = s.task? (.warmUp k)

theorem Started.warmed {s : Service} {n : Nat} {found : List EdgeId} {q : Service × List Action}
    (h : Started (s.close (.call n)) (found.take s.permits) q) :
    Warmed s n found (q.1, q.2 ++ [.finish (.call n) (.edgeIds found)]) := by
  have hlength : (found.take s.permits).length = min found.length s.permits := by
    rw [List.length_take, Nat.min_comm]
  refine ⟨?_, ?_, ?_, ?_⟩
  · rw [h.actions, hlength]
    rfl
  · have hp : q.1.permits + min found.length s.permits = s.permits := hlength ▸ h.permits
    exact Nat.eq_sub_of_add_eq hp
  · intro i hi
    have hif : i < found.length := Nat.lt_of_lt_of_le hi (Nat.min_le_left _ _)
    have hip : i < s.permits := Nat.lt_of_lt_of_le hi (Nat.min_le_right _ _)
    refine ⟨found[i], List.getElem?_eq_getElem hif, ?_⟩
    apply h.queued
    rw [List.getElem?_take_of_lt hip, List.getElem?_eq_getElem hif]
  · intro k hk
    refine (h.others _ fun i hi he => ?_).trans ?_
    · injection he with he
      exact hk i (hlength ▸ hi) he
    · exact task?_close_of_ne s Ticket.noConfusion

/-- A refresh in the background has ended and given its permit back. -/
structure Released (s : Service) (k : Nat) (r : Service × List Action) : Prop where
  permits : r.1.permits = s.permits + 1
  task : r.1.task? (.warmUp k) = none
  actions : r.2 = [.finish (.warmUp k) .done]

theorem released_resume {s shared : Service} (k : Nat) (found : Option EdgeRef)
    (h : shared.permits = s.permits) :
    Released s k (shared.resume (.warmUp k) found .warmUp) := by
  refine ⟨congrArg (· + 1) h, ?_, rfl⟩
  exact task?_close_self _ _

/-- The refresh has made an instance whose activation is being written, and keeps its permit. -/
structure Activates (s : Service) (k : Nat) (id : EdgeId)
    (result : Except DirectoryError Directory.Record) (online : Bool)
    (r : Service × List Action) : Prop where
  inactive : ∃ reply record, result = .ok reply ∧ EdgeRecord.decodeFor id reply = .ok record ∧
    record.state = .inactive
  online : online = true
  permits : r.1.permits = s.permits
  task : r.1.task? (.warmUp k) = some (.activating s.instances.length .warmUp)

/-- The refreshes in the background and their permits, in a run until now and with the next event. -/
structure Conserved (settings : Settings) (ms : List Moment) (s : Service) : Prop where
  /-- The permits at hand and the refreshes under way are as many as there were permits. -/
  total : s.permits + (underway ms).length = max 1 settings.refreshConcurrency
  /-- A refresh starts once, ends once, and ends after its start. -/
  once : (startedIn ms).Nodup ∧ (endedIn ms).Nodup ∧ endedIn ms ⊆ startedIn ms
  /-- One that is under way waits for something. -/
  active : ∀ k, k ∈ underway ms ↔ ∃ task, s.task? (.warmUp k) = some task
  /-- Every refresh that starts takes a permit, and every one that ends gives one back. -/
  balance : ∀ e, (s.step e).1.permits + (startedBy (s.step e).2).length =
    s.permits + (endedBy (s.step e).2).length
  /-- Only a call starts refreshes whose search has found something. -/
  starts : ∀ e, startedBy (s.step e).2 ≠ [] →
    ∃ n ids, e = .searched (.call n) (.ok ids) ∧ s.task? (.call n) = some .searching
  /-- For an empty key nothing is searched. -/
  empty : ∀ n, s.task? (.call n) = none →
    s.step (.resolve n "") = (s, [.finish (.call n) (.edgeIds [])])
  /-- For any other key there is one search. -/
  asks : ∀ n apikey, s.task? (.call n) = none → apikey ≠ "" →
    s.step (.resolve n apikey) = (s.await (.call n) .searching,
      [.search (.call n) [.equals .apikey (.text apikey)]])
  /-- A search that fails finds nothing. -/
  failed : ∀ n e, s.task? (.call n) = some .searching →
    s.step (.searched (.call n) (.error e)) =
      (s.close (.call n), [.finish (.call n) (.edgeIds [])])
  /-- Any other one finds all but the zeros, in order. -/
  found : ∀ n ids, s.task? (.call n) = some .searching →
    ∃ edges : List EdgeId, edges.map (·.value) = ids.filter (· ≠ 0) ∧
      Warmed s n edges (s.step (.searched (.call n) (.ok ids)))
  /-- A refresh that has its turn reads its edge. -/
  turn : ∀ k id, s.task? (.warmUp k) = some (.queued id) →
    s.step (.turn (.warmUp k)) =
      (s.await (.warmUp k) (.reading id .warmUp), [.read (.warmUp k) id])
  /-- It ends when it has read the edge, whether that has failed or not, unless the edge is to be
  activated. -/
  read : ∀ k id result online, s.task? (.warmUp k) = some (.reading id .warmUp) →
    Released s k (s.step (.record (.warmUp k) result online)) ∨
      Activates s k id result online (s.step (.record (.warmUp k) result online))
  /-- It ends when the activation is written, whether it has been superseded or not. -/
  written : ∀ k ref purpose, s.task? (.warmUp k) = some (.activating ref purpose) →
    Released s k (s.step (.stored (.warmUp k)))
  /-- Nothing else ends or changes it, whatever becomes of the call that has started it. -/
  others : ∀ k e, k ∈ underway ms → e.ticket? ≠ some (.warmUp k) →
    (s.step e).1.task? (.warmUp k) = s.task? (.warmUp k)

theorem Tally.active {settings : Settings} {ms : List Moment} {s : Service}
    (hl : Tally settings ms s) (k : Nat) :
    k ∈ underway ms ↔ ∃ task, s.task? (.warmUp k) = some task := by
  rw [hl.running, underway, hl.started, List.mem_filter, List.mem_range, decide_eq_true_eq]

theorem Move.of_startedBy {s : Service} {e : Event} {r : Service × List Action} (h : Move s e r)
    (hs : startedBy r.2 ≠ []) :
    ∃ n ids, e = .searched (.call n) (.ok ids) ∧ s.task? (.call n) = some .searching := by
  cases h with
  | rests tasks warmUps permits actions => exact absurd (none_of_rests actions).1 hs
  | moves t own waited h => exact absurd h.startedBy_eq_nil hs
  | drops n he hr =>
    subst hr
    exact absurd rfl hs
  | starts n ids he ht h hr => exact ⟨n, ids, he, ht⟩

theorem Fetched.released {s : Service} {k : Nat} {e : Event} {r : Service × List Action}
    (h : Fetched s (.warmUp k) .warmUp e r) :
    Released s k r ∨ ∃ id result online, e = .record (.warmUp k) result online ∧
      s.task? (.warmUp k) = some (.reading id .warmUp) ∧ Activates s k id result online r := by
  cases h with
  | failed ht hf => exact Or.inl (released_resume k _ rfl)
  | @begun record reply online ht hr ha =>
    refine Or.inr ⟨record.id, .ok reply, online, rfl, ht, ⟨reply, record, rfl, hr, ha.2⟩, ha.1, rfl,
      ?_⟩
    exact task?_await_self _ _ _
  | made ht hr ha => exact Or.inl (released_resume k _ rfl)
  | installed ht hi hc => exact Or.inl (released_resume k _ rfl)
  | superseded ht hi hc => exact Or.inl (released_resume k _ rfl)

theorem released_record {s : Service} {k : Nat} {id : EdgeId}
    (ht : s.task? (.warmUp k) = some (.reading id .warmUp))
    (result : Except DirectoryError Directory.Record) (online : Bool) :
    Released s k (s.step (.record (.warmUp k) result online)) ∨
      Activates s k id result online (s.step (.record (.warmUp k) result online)) := by
  rcases (fetched_record ht result online).released with h | ⟨id', result', online', he, ht', h⟩
  · exact Or.inl h
  · cases he
    rw [ht] at ht'
    cases ht'
    exact Or.inr h

theorem released_stored {s : Service} (ha : Aligned s) (hs : Suited s) {k : Nat} {ref : EdgeRef}
    {purpose : Purpose} (ht : s.task? (.warmUp k) = some (.activating ref purpose)) :
    Released s k (s.step (.stored (.warmUp k))) := by
  have hp : purpose = .warmUp := by
    have hsuits := hs _ _ ht
    cases purpose with
    | warmUp => rfl
    | answer => exact hsuits.elim
    | login l => exact hsuits.elim
  subst hp
  rcases (fetched_stored ha ht).released with h | ⟨id, result, online, he, -⟩
  · exact h
  · cases he

/-- In every run the permits at hand and the refreshes in the background are as many as there were
permits. -/
theorem conserved_run (settings : Settings) (es : List Event) :
    Conserved settings ((start settings).moments es) ((start settings).run es) := by
  have ha := aligned_run settings es
  have hs := suited_run settings es
  have hl := tally_run settings es
  generalize (start settings).run es = s at ha hs hl ⊢
  generalize (start settings).moments es = ms at hl ⊢
  have hmax : settings.refreshPermits = max 1 settings.refreshConcurrency := Nat.max_comm _ _
  refine ⟨?_, ⟨?_, hl.ended, fun k hk => ?_⟩, hl.active, fun e => (move_step ha hs e).shift.permits,
    fun e => (move_step ha hs e).of_startedBy, fun n hn => ?_, fun n apikey hn hk => ?_, fun n e ht => ?_,
    fun n ids ht => ?_, fun k id ht => ?_, fun k id result online ht => ?_,
    fun k ref purpose ht => ?_, fun k e hk he => ?_⟩
  · have htotal := hl.total
    have hunderway := hl.length_underway
    rw [hmax] at htotal
    omega
  · rw [hl.started]
    exact List.nodup_range
  · rw [hl.started, List.mem_range]
    exact hl.below k hk
  · rw [step, whenFree_of_free hn, startSearch, if_pos rfl, finish, close_of_task?_none hn]
  · rw [step, whenFree_of_free hn, startSearch, if_neg hk]
  · rw [step, ht]
    rfl
  · refine ⟨validIds ids, map_value_validIds ids, ?_⟩
    rw [step, ht]
    exact (started_warmUpAll (s.close (.call n)) (validIds ids)).warmed
  · rw [step, ht]
    rfl
  · exact released_record ht result online
  · exact released_stored ha hs ht
  · obtain ⟨hlt, -⟩ := (hl.running k).mp ((hl.active k).mp hk)
    refine (move_step ha hs e).task?_of_ne (fun j hj => ?_) he
    injection hj with hj
    exact hj ▸ hlt

end EdgeFleet.Service
