import EdgeFleet.Proofs.WriteBack.Conservation
import Mathlib.Data.List.Nodup

namespace EdgeFleet.WriteBack

/-- Whether the worker is at its last flush or behind it. -/
def Background.Ending : Background → Prop
  | .closing _ | .stopped => True
  | .idle | .flushing _ => False

namespace Worker

/-- The ways in which a call can return: it has flushed everything, it need not wait for the worker,
or it has waited until the worker stopped. -/
inductive Returns (w : Worker) (n : Nat) (r : Worker × List Action) : Event → Prop
  | flushed (now : Timestamp) (h : r.1.outstanding (.call n) = []) : Returns w n r (.flush n now)
  | written (ho : w.outstanding (.call n) ≠ []) (h : r.1.outstanding (.call n) = []) :
      Returns w n r (.written (.call n))
  | closed (hc : w.closed = true) : Returns w n r (.dispose n)
  | stopped (e : Event) (hw : w.waiting = some n) (hb : r.1.background = .stopped) :
      Returns w n r e

section Step

variable {w : Worker} {e : Event} {n : Nat}

theorem ended_goOnFlush {call : Nat} {batches : List Batch}
    (h : Action.ended n ∈ (w.goOnFlush call batches).2) : n = call ∧ batches = [] := by
  cases batches with
  | nil =>
    cases List.mem_singleton.mp h
    exact ⟨rfl, rfl⟩
  | cons b rest => cases List.mem_singleton.mp h

theorem ended_goOnTick {batches : List Batch} : Action.ended n ∉ (w.goOnTick batches).2 := by
  intro h
  cases batches with
  | nil => cases h
  | cons b rest => cases List.mem_singleton.mp h

theorem ended_goOnClose {batches : List Batch}
    (h : Action.ended n ∈ (w.goOnClose batches).2) :
    w.waiting = some n ∧ (w.goOnClose batches).1.background = .stopped := by
  cases batches with
  | nil =>
    refine ⟨?_, rfl⟩
    simp only [goOnClose, endWaiting] at h
    split at h
    · cases h
    · rename_i call hw
      cases List.mem_singleton.mp h
      exact hw
  | cons b rest => cases List.mem_singleton.mp h

theorem returns_of_ended (h : Action.ended n ∈ (w.step e).2) : w.Returns n (w.step e) e := by
  have hm := move_step w e
  generalize w.step e = r at h hm ⊢
  cases hm with
  | skip e hd he hk => cases h
  | mark signal id => cases h
  | flush call now =>
    obtain ⟨rfl, hb⟩ := ended_goOnFlush h
    exact .flushed now (by rw [(goesOn_goOnFlush _ n _).own, hb])
  | tick now hb => exact absurd h ended_goOnTick
  | close now hb hc =>
    obtain ⟨hw, hs⟩ := ended_goOnClose h
    exact .stopped _ hw hs
  | dispose call hc => cases h
  | disposed call hc =>
    cases List.mem_singleton.mp h
    exact .closed hc
  | flushed call b rest ho =>
    obtain ⟨rfl, hr⟩ := ended_goOnFlush h
    exact .written (by simp [ho]) (by rw [(goesOn_goOnFlush w n rest).own, hr])
  | ticked b rest hb => exact absurd h ended_goOnTick
  | closed b rest hb =>
    obtain ⟨hw, hs⟩ := ended_goOnClose h
    exact .stopped _ hw hs

theorem frame_goOnFlush (call : Nat) (batches : List Batch) :
    (w.goOnFlush call batches).1.background = w.background ∧
      (w.goOnFlush call batches).1.closed = w.closed ∧
      (w.goOnFlush call batches).1.waiting = w.waiting := by
  cases batches <;> exact ⟨rfl, rfl, rfl⟩

theorem frame_goOnTick (batches : List Batch) :
    ¬ (w.goOnTick batches).1.background.Ending ∧ (w.goOnTick batches).1.closed = w.closed ∧
      (w.goOnTick batches).1.waiting = w.waiting := by
  cases batches <;> exact ⟨id, rfl, rfl⟩

theorem frame_goOnClose (batches : List Batch) :
    (w.goOnClose batches).1.closed = w.closed ∧
      (w.goOnClose batches).1.waiting = w.waiting := by
  cases batches <;> exact ⟨rfl, rfl⟩

/-- Only the first call that closes the worker is remembered. -/
theorem closed_step (w : Worker) (e : Event) :
    ((w.step e).1.closed = w.closed ∧ (w.step e).1.waiting = w.waiting) ∨
      ∃ call, e = .dispose call ∧ (w.step e).1.closed = true ∧
        (w.step e).1.waiting = some call := by
  have hm := move_step w e
  generalize w.step e = r at hm ⊢
  cases hm with
  | skip e hd he hk => exact Or.inl ⟨rfl, rfl⟩
  | mark signal id => exact Or.inl ⟨rfl, rfl⟩
  | flush call now => exact Or.inl (frame_goOnFlush call _).2
  | tick now hb => exact Or.inl (frame_goOnTick _).2
  | close now hb hc => exact Or.inl (frame_goOnClose _)
  | dispose call hc => exact Or.inr ⟨call, rfl, rfl, rfl⟩
  | disposed call hc => exact Or.inl ⟨rfl, rfl⟩
  | flushed call b rest ho => exact Or.inl (frame_goOnFlush call rest).2
  | ticked b rest hb => exact Or.inl (frame_goOnTick rest).2
  | closed b rest hb => exact Or.inl (frame_goOnClose rest)

/-- The worker comes to its end only when it is closed while it is idle, and never comes back. -/
theorem background_step (w : Worker) (e : Event) :
    (w.background = .stopped → (w.step e).1.background = .stopped) ∧
      ((w.step e).1.background.Ending → w.background.Ending ∨
        ∃ now, e = .close now ∧ w.background = .idle ∧ w.closed = true) := by
  have hm := move_step w e
  generalize w.step e = r at hm ⊢
  have hsame (hs : r.1.background = w.background) :
      (w.background = .stopped → r.1.background = .stopped) ∧
        (r.1.background.Ending → w.background.Ending ∨
          ∃ now, e = .close now ∧ w.background = .idle ∧ w.closed = true) := by
    rw [hs]
    exact ⟨id, Or.inl⟩
  cases hm with
  | skip e hd he hk => exact hsame rfl
  | mark signal id => exact hsame rfl
  | flush call now => exact hsame (frame_goOnFlush call _).1
  | tick now hb =>
    refine ⟨fun hs => ?_, fun he => absurd he (frame_goOnTick _).1⟩
    rw [hb] at hs
    cases hs
  | close now hb hc =>
    refine ⟨fun hs => ?_, fun _ => Or.inr ⟨now, rfl, hb, hc⟩⟩
    rw [hb] at hs
    cases hs
  | dispose call hc => exact hsame rfl
  | disposed call hc => exact hsame rfl
  | flushed call b rest ho => exact hsame (frame_goOnFlush call rest).1
  | ticked b rest hb =>
    refine ⟨fun hs => ?_, fun he => absurd he (frame_goOnTick rest).1⟩
    rw [hb] at hs
    cases hs
  | closed b rest hb =>
    refine ⟨fun hs => ?_, fun _ => Or.inl (by rw [hb]; trivial)⟩
    rw [hb] at hs
    cases hs

end Step

section Runs

theorem closed_run {es : List Event} (h : (run {} es).closed = true) :
    ∃ n, Event.dispose n ∈ es := by
  induction es using List.reverseRecOn with
  | nil => cases h
  | append_singleton es e ih =>
    rw [run_concat] at h
    rcases closed_step (run {} es) e with ⟨hc, -⟩ | ⟨n, rfl, -⟩
    · obtain ⟨n, hn⟩ := ih (hc ▸ h)
      exact ⟨n, List.mem_append_left _ hn⟩
    · exact ⟨n, by simp⟩

theorem waiting_run {es : List Event} {n : Nat} (h : (run {} es).waiting = some n) :
    Event.dispose n ∈ es := by
  induction es using List.reverseRecOn with
  | nil => cases h
  | append_singleton es e ih =>
    rw [run_concat] at h
    rcases closed_step (run {} es) e with ⟨-, hw⟩ | ⟨m, rfl, -, hw⟩
    · exact List.mem_append_left _ (ih (hw ▸ h))
    · rw [hw] at h
      cases h
      simp

theorem stopped_run {w : Worker} (h : w.background = .stopped) (es : List Event) :
    (w.run es).background = .stopped := by
  induction es generalizing w with
  | nil => exact h
  | cons e rest ih => exact ih ((background_step w e).1 h)

/-- When the worker comes to its end it has drained after it was closed. -/
theorem ending_run {es : List Event} (h : (run {} es).background.Ending) :
    ∃ es₁ now es₂, es = es₁ ++ .close now :: es₂ ∧ (run {} es₁).background = .idle ∧
      (run {} es₁).closed = true := by
  induction es using List.reverseRecOn with
  | nil => exact h.elim
  | append_singleton es e ih =>
    rw [run_concat] at h
    rcases (background_step (run {} es) e).2 h with hold | ⟨now, rfl, hb, hc⟩
    · obtain ⟨es₁, now, es₂, rfl, hb, hc⟩ := ih hold
      exact ⟨es₁, now, es₂ ++ [e], by simp, hb, hc⟩
    · exact ⟨es, now, [], rfl, hb, hc⟩

theorem call_unique {es : List Event} (h : (calls es).Nodup) {e e' : Event} {n : Nat}
    (hm : e ∈ es) (hm' : e' ∈ es) (hn : e.call? = some n) (hn' : e'.call? = some n) : e = e' := by
  obtain ⟨es₁, es₂, rfl⟩ := List.append_of_mem hm
  have hcalls : calls (es₁ ++ e :: es₂) = calls es₁ ++ n :: calls es₂ := by
    rw [calls_append, calls, calls, List.filterMap_cons_some hn]
    rfl
  rw [hcalls] at h
  have hnot := (List.nodup_middle.mp h).notMem
  rcases List.mem_append.mp hm' with hm' | hm'
  · exact absurd (List.mem_append_left _ (mem_calls hm' hn')) hnot
  · rcases List.mem_cons.mp hm' with rfl | hm'
    · rfl
    · exact absurd (List.mem_append_right _ (mem_calls hm' hn')) hnot

theorem nodup_calls_of_append {es more : List Event} (h : (calls (es ++ more)).Nodup) :
    (calls es).Nodup :=
  (List.nodup_append.mp (calls_append es more ▸ h)).1

theorem mem_calls_of_ended {es : List Event} {m : Moment} {n : Nat} (hm : m ∈ moments {} es)
    (ha : .ended n ∈ m.actions) : n ∈ calls es := by
  obtain ⟨es₁, e, es₂, rfl, rfl⟩ := eq_of_mem_moments hm
  have hr : (run {} es₁).Returns n ((run {} es₁).step e) e := returns_of_ended ha
  generalize (run {} es₁).step e = r at hr
  cases hr with
  | flushed now hout => exact mem_calls (e := .flush n now) (by simp) rfl
  | written ho hout =>
    by_contra hn
    refine ho (outstanding_call_run es₁ fun now hf => hn ?_)
    exact mem_calls (List.mem_append_left _ hf) rfl
  | closed hc => exact mem_calls (e := .dispose n) (by simp) rfl
  | stopped e hw hstop => exact mem_calls (List.mem_append_left _ (waiting_run hw)) rfl

theorem outstanding_of_ended {es : List Event} (h : (calls es).Nodup) {n : Nat} {now : Timestamp}
    (hf : .flush n now ∈ es) (he : ∃ m ∈ moments {} es, .ended n ∈ m.actions) :
    (run {} es).outstanding (.call n) = [] := by
  induction es using List.reverseRecOn with
  | nil => cases hf
  | append_singleton es e ih =>
    obtain ⟨m, hm, ha⟩ := he
    rw [moments_concat] at hm
    rw [run_concat]
    rcases List.mem_append.mp hm with hm | hm
    · have hstart : n ∈ calls es := mem_calls_of_ended hm ha
      have hne (now' : Timestamp) : e ≠ .flush n now' := by
        rintro rfl
        exact notMem_calls h rfl hstart
      have hold : .flush n now ∈ es := by
        rcases List.mem_append.mp hf with hf | hf
        · exact hf
        · exact absurd (List.mem_singleton.mp hf).symm (hne now)
      exact outstanding_call_step (ih (nodup_calls_of_append h) hold ⟨m, hm, ha⟩) hne
    · rw [List.mem_singleton.mp hm] at ha
      have hr : (run {} es).Returns n ((run {} es).step e) e := returns_of_ended ha
      generalize (run {} es).step e = r at hr ⊢
      cases hr with
      | flushed now' hout => exact hout
      | written ho hout => exact hout
      | closed hc =>
        have hd : Event.dispose n ∈ es ++ [.dispose n] := by simp
        cases call_unique h hf hd rfl rfl
      | stopped e hw hstop =>
        have hd : Event.dispose n ∈ es ++ [e] := List.mem_append_left _ (waiting_run hw)
        cases call_unique h hf hd rfl rfl

theorem stopped_of_ended {es₁ es₂ : List Event} {e : Event} {n : Nat}
    (h : (calls (es₁ ++ e :: es₂)).Nodup) (hd : .dispose n ∈ es₁)
    (ha : .ended n ∈ ((run {} es₁).step e).2) :
    (run {} (es₁ ++ e :: es₂)).background = .stopped := by
  have hnot : n ∉ calls [e] := by
    rw [← List.singleton_append, ← List.append_assoc] at h
    have hs := List.nodup_append.mp (calls_append es₁ [e] ▸ nodup_calls_of_append h)
    intro hn
    exact hs.2.2 n (mem_calls hd rfl) n hn rfl
  have hstop : ((run {} es₁).step e).1.background = .stopped := by
    have hr := returns_of_ended ha
    generalize (run {} es₁).step e = r at hr ⊢
    cases hr with
    | flushed now hout => exact absurd (mem_calls (List.mem_singleton_self _) rfl) hnot
    | written ho hout =>
      refine absurd (outstanding_call_run es₁ fun now hf => ?_) ho
      cases call_unique h (List.mem_append_left _ hf) (List.mem_append_left _ hd) rfl rfl
    | closed hc => exact absurd (mem_calls (List.mem_singleton_self _) rfl) hnot
    | stopped e hw hs => exact hs
  rw [run_append]
  exact stopped_run hstop es₂

/-- When the first call that closes the worker returns, the worker has stopped and has drained since
the call began. -/
theorem drained_of_ended {es : List Event} (h : (calls es).Nodup) {before after : List Moment}
    {m : Moment} {n : Nat} (hs : moments {} es = before ++ m :: after) (hm : m.event = .dispose n)
    (hfirst : ∀ x ∈ before, ∀ k, x.event ≠ .dispose k)
    (hret : ∃ x ∈ after, .ended n ∈ x.actions) :
    (run {} es).background = .stopped ∧ ∃ y ∈ after, y.drain? ≠ none := by
  have hstop : (run {} es).background = .stopped := by
    obtain ⟨x, hx, ha⟩ := hret
    obtain ⟨between, later, rfl⟩ := List.append_of_mem hx
    have hs' : moments {} es = (before ++ m :: between) ++ x :: later := by simpa using hs
    obtain ⟨es₁, e, es₂, rfl, hb, rfl, -⟩ := moments_eq_append_cons hs'
    have hd : .dispose n ∈ es₁ := by
      rw [← events_moments {} es₁, ← hb, ← hm]
      exact List.mem_map_of_mem (by simp)
    exact stopped_of_ended h hd ha
  refine ⟨hstop, ?_⟩
  obtain ⟨es₁, now, es₂, rfl, hb, hc⟩ := ending_run (hstop ▸ trivial : (run {} es).background.Ending)
  obtain ⟨k, hk⟩ := closed_run hc
  obtain ⟨x, hx, hxk⟩ : ∃ x ∈ moments {} es₁, x.event = .dispose k := by
    rw [← events_moments {} es₁] at hk
    exact List.mem_map.mp hk
  have hd : Moment.drain? ⟨run {} es₁, .close now⟩ ≠ none := by
    simp [Moment.drain?, drain?, hb, hc]
  rw [moments_append, moments] at hs
  rcases List.append_eq_append_iff.mp hs with ⟨as, hbefore, -⟩ | ⟨bs, hmoments, hafter⟩
  · rw [hbefore] at hfirst
    exact absurd hxk (hfirst x (List.mem_append_left _ hx) k)
  · cases bs with
    | nil =>
      injection hafter with he
      rw [he] at hm
      cases hm
    | cons b bs =>
      injection hafter with he hrest
      exact ⟨_, hrest ▸ List.mem_append_right _ List.mem_cons_self, hd⟩

/-- The first drain after a notification takes it. -/
theorem first_drain_takes {es : List Event} {before rest : List Moment} {x : Moment}
    {signal : Signal} {id : EdgeId} (hs : moments {} es = before ++ x :: rest)
    (hx : x.event = .mark signal id) (hd : ∃ y ∈ rest, y.drain? ≠ none) :
    ∃ between y later d, rest = between ++ y :: later ∧ y.drain? = some d ∧
      id ∈ d.pending.of signal := by
  have hsome : (rest.find? fun y => y.drain?.isSome).isSome = true := by
    obtain ⟨y, hy, hn⟩ := hd
    exact List.find?_isSome.mpr ⟨y, hy, Option.isSome_iff_ne_none.mpr hn⟩
  obtain ⟨y, hfind⟩ := Option.isSome_iff_exists.mp hsome
  obtain ⟨hy, between, later, rfl, hnone⟩ := List.find?_eq_some_iff_append.mp hfind
  obtain ⟨d, hyd⟩ := Option.isSome_iff_exists.mp hy
  refine ⟨between, y, later, d, rfl, hyd, ?_⟩
  have hs' : moments {} es = (before ++ x :: between) ++ y :: later := by simpa using hs
  obtain ⟨es₁, e, es₂, -, hb, rfl, -⟩ := moments_eq_append_cons hs'
  rw [(drains_of_drain? hyd).pending_eq]
  apply (mem_pending_run es₁ signal id).mpr
  have hquiet : ∀ z ∈ x :: between, z.drain? = none := by
    intro z hz
    rcases List.mem_cons.mp hz with rfl | hz
    · rw [Moment.drain?, hx]
      rfl
    · simpa using hnone z hz
  rw [← hb, sinceDrain_append before hquiet, notified_append]
  apply List.mem_append_right
  simp [notified, hx, Event.mark?]

end Runs

/-- What becomes of the notifications of a run. -/
structure Accounted (ms : List Moment) (w : Worker) : Prop where
  /-- What has been notified since the last drain is marked, writes under way or not. -/
  kept : ∀ signal id, id ∈ w.pending.of signal ↔ id ∈ notified signal (sinceDrain ms)
  /-- A drain takes what has been notified since the one before, and leaves nothing. -/
  taken : ∀ before m after d, ms = before ++ m :: after → m.drain? = some d → ∀ signal,
    (∀ id, id ∈ d.pending.of signal ↔ id ∈ notified signal (sinceDrain before)) ∧
      m.after.pending.of signal = []
  /-- It leads to one write for a signal of which any edge was notified, and else to none. -/
  coalesced : ∀ owner, ∀ d ∈ drains owner ms, ∀ signal, d.Coalesced signal
  /-- These are the writes asked for, in order, except for those that wait for one under way. -/
  written : ∀ owner signal,
    (issued owner ms).filter (·.field = signal.field) ++
        ((w.outstanding owner).drop 1).filter (·.field = signal.field) =
      (drains owner ms).flatMap fun d => d.pending.writesOf d.now signal
  /-- Each of them has ended once, whatever became of it, except for the one under way. -/
  ended : ∀ owner, issued owner ms = finished owner ms ++ (w.outstanding owner).take 1
  /-- When the first call that closes the worker returns, what was notified before it has been
  drained, and all writes of its owner have ended unless that is a flush that has not returned. -/
  disposed : ∀ before m after n, ms = before ++ m :: after → m.event = .dispose n →
    (∀ x ∈ before, ∀ k, x.event ≠ .dispose k) → (∃ x ∈ after, .ended n ∈ x.actions) →
    ∀ early x late signal id, before = early ++ x :: late → x.event = .mark signal id →
      ∃ between y later d, late ++ m :: after = between ++ y :: later ∧ y.drain? = some d ∧
        id ∈ d.pending.of signal ∧
        (finished d.owner ms = Worker.taken d.owner ms ∨
          ∃ k, d.owner = .call k ∧ ∀ z ∈ ms, .ended k ∉ z.actions)

theorem taken_run {es : List Event} {before after : List Moment} {m : Moment} {d : Drain}
    (hs : moments {} es = before ++ m :: after) (hd : m.drain? = some d) (signal : Signal) :
    (∀ id, id ∈ d.pending.of signal ↔ id ∈ notified signal (sinceDrain before)) ∧
      m.after.pending.of signal = [] := by
  obtain ⟨es₁, e, es₂, rfl, rfl, rfl, -⟩ := moments_eq_append_cons hs
  constructor
  · intro id
    rw [(drains_of_drain? hd).pending_eq]
    exact mem_pending_run es₁ signal id
  · have hp : Moment.after ⟨run {} es₁, e⟩ = ((run {} es₁).step e).1 := rfl
    rw [hp, pending_step_of_drain hd]
    cases signal <;> rfl

theorem coalesced_run {es : List Event} {owner : Owner} {d : Drain}
    (h : d ∈ drains owner (moments {} es)) (signal : Signal) : d.Coalesced signal := by
  obtain ⟨m, hm, hd⟩ := List.mem_filterMap.mp h
  obtain ⟨es₁, e, es₂, -, rfl⟩ := eq_of_mem_moments hm
  apply coalesced_of_ascending
  rw [(drains_of_drain? (Option.filter_eq_some_iff.mp hd).1).pending_eq]
  exact ascending_pending_run es₁ signal

/-- For each signal, the writes asked for and those that wait are the writes of the drains. -/
theorem written_run {es : List Event} (h : (calls es).Nodup) (owner : Owner) (signal : Signal) :
    (issued owner (moments {} es)).filter (·.field = signal.field) ++
        (((run {} es).outstanding owner).drop 1).filter (·.field = signal.field) =
      (drains owner (moments {} es)).flatMap fun d => d.pending.writesOf d.now signal := by
  obtain ⟨ht, hi⟩ := balance_run es h owner
  calc (issued owner (moments {} es)).filter (·.field = signal.field) ++
        (((run {} es).outstanding owner).drop 1).filter (·.field = signal.field)
      = (issued owner (moments {} es) ++ ((run {} es).outstanding owner).drop 1).filter
          (·.field = signal.field) := (List.filter_append _ _).symm
    _ = (Worker.taken owner (moments {} es)).filter (·.field = signal.field) := by
        rw [hi, ht, List.append_assoc, List.take_append_drop]
    _ = (drains owner (moments {} es)).flatMap fun d => d.pending.writesOf d.now signal := by
        rw [Worker.taken, List.filter_flatMap]
        congr 1
        funext d
        exact Pending.filter_batches d.pending d.now signal

/-- Once the worker has stopped, a drain has been written to its end, unless it is one of a flush that
has not returned. -/
theorem finished_of_stopped {es : List Event} (h : (calls es).Nodup)
    (hstop : (run {} es).background = .stopped) {y : Moment} {d : Drain} (hy : y ∈ moments {} es)
    (hd : y.drain? = some d) :
    finished d.owner (moments {} es) = Worker.taken d.owner (moments {} es) ∨
      ∃ k, d.owner = .call k ∧ ∀ z ∈ moments {} es, .ended k ∉ z.actions := by
  have hdone (ho : (run {} es).outstanding d.owner = []) :
      finished d.owner (moments {} es) = Worker.taken d.owner (moments {} es) := by
    rw [(balance_run es h d.owner).1, ho, List.append_nil]
  obtain ⟨es₁, e, es₂, he, rfl⟩ := eq_of_mem_moments hy
  cases drains_of_drain? hd with
  | flush k now =>
    by_cases ha : ∃ z ∈ moments {} es, .ended k ∈ z.actions
    · have hf : .flush k now ∈ es := by simp [he]
      exact Or.inl (hdone (outstanding_of_ended h hf ha))
    · right
      refine ⟨k, rfl, ?_⟩
      intro z hz hk
      exact ha ⟨z, hz, hk⟩
  | tick now hidle =>
    left
    apply hdone
    simp only [outstanding, hstop]
  | close now hidle =>
    left
    apply hdone
    simp only [outstanding, hstop]

/-- Whatever happens to the worker, no notification is lost, written twice or written for another
edge. -/
theorem accounted_run (es : List Event) (h : (calls es).Nodup) :
    Accounted (moments {} es) (run {} es) := by
  constructor
  case kept => exact mem_pending_run es
  case taken =>
    intro before m after d hs hd signal
    exact taken_run hs hd signal
  case coalesced =>
    intro owner d hd signal
    exact coalesced_run hd signal
  case written => exact written_run h
  case ended =>
    intro owner
    exact (balance_run es h owner).2
  case disposed =>
    intro before m after n hs hm hfirst hret early x late signal id hb hx
    obtain ⟨hstop, y, hy, hyd⟩ := drained_of_ended h hs hm hfirst hret
    have hs' : moments {} es = early ++ x :: (late ++ m :: after) := by
      rw [hs, hb]
      simp
    -- the drain since the call began is at or after the first one that takes the notification
    obtain ⟨between, z, later, d, hz, hd, hid⟩ :=
      first_drain_takes hs' hx ⟨y, by simp [hy], hyd⟩
    have hzm : z ∈ moments {} es := by
      rw [hs', hz]
      simp
    exact ⟨between, z, later, d, hz, hd, hid, finished_of_stopped h hstop hzm hd⟩

/-- A run in which a flush is overtaken by the end of the worker: the edge that it drained is notified
once more while its write is under way, and that notification is left for the last flush. -/
def overtakenFlush (a b : EdgeId) : List Event :=
  [.mark .message b, .mark .message a, .mark .message b, .flush 0 ⟨0⟩, .mark .message a, .dispose 1,
    .close ⟨0⟩, .written .background]

theorem accounted_overtakenFlush :
    let es := overtakenFlush ⟨1, by decide⟩ ⟨2, by decide⟩
    (calls es).Nodup ∧ Accounted (moments {} es) (run {} es) ∧
      ((issued (.call 0) (moments {} es)).map (·.ids) = [[1, 2]] ∧
        finished (.call 0) (moments {} es) = [] ∧
        (finished .background (moments {} es)).map (·.ids) = [[1]]) ∧
      (run {} es).background = .stopped := by
  intro es
  exact ⟨by decide, accounted_run es (by decide), ⟨rfl, rfl, rfl⟩, rfl⟩

end Worker

end EdgeFleet.WriteBack
