import EdgeFleet.Proofs.WriteBack.Drain
import Mathlib.Data.List.DropRight
import Mathlib.Data.List.Induction

/-! Runs of the worker over any events in any order. The marks are what has been notified since the last
drain, and what an owner has drained is what it has written and what it has still to write. -/
namespace EdgeFleet.WriteBack

/-- What a drain leads to for one signal: nothing if no edge is marked, and otherwise one write, of
the marked edges in ascending order. -/
def Drain.Coalesced (d : Drain) (signal : Signal) : Prop :=
  (d.pending.of signal = [] ∧ d.pending.writesOf d.now signal = []) ∨
    ∃ b, d.pending.writesOf d.now signal = [b] ∧ b.field = signal.field ∧
      b.stamp = d.now.stored ∧ b.ids ≠ [] ∧ b.ids.Pairwise (· < ·) ∧
      ∀ n, n ∈ b.ids ↔ ∃ id ∈ d.pending.of signal, id.value = n

namespace Worker

/-- The worker after some events. -/
def run (w : Worker) (es : List Event) : Worker :=
  es.foldl (fun w e => (w.step e).1) w

/-- The worker and the event that happens to it. -/
structure Moment where
  before : Worker
  event : Event

namespace Moment

def after (m : Moment) : Worker := (m.before.step m.event).1

def actions (m : Moment) : List Action := (m.before.step m.event).2

def drain? (m : Moment) : Option Drain := m.before.drain? m.event

end Moment

/-- The moments of a run. -/
def moments (w : Worker) : List Event → List Moment
  | [] => []
  | e :: rest => ⟨w, e⟩ :: (w.step e).1.moments rest

/-- The number of the call that an event starts. -/
def Event.call? : Event → Option Nat
  | .flush n _ | .dispose n => some n
  | _ => none

/-- The numbers of the calls that some events start. -/
def calls (es : List Event) : List Nat := es.filterMap Event.call?

/-- The batch of a write, if it is one of the owner's. -/
def ownedBy (owner : Owner) (write : Owner × Batch) : Option Batch :=
  if write.1 = owner then some write.2 else none

/-- The drains of an owner. -/
def drains (owner : Owner) (ms : List Moment) : List Drain :=
  ms.filterMap fun m => m.drain?.filter (·.owner = owner)

/-- The batches that an owner has drained. -/
def taken (owner : Owner) (ms : List Moment) : List Batch :=
  (drains owner ms).flatMap Drain.batches

/-- The batches whose writes were asked for on behalf of an owner. -/
def issued (owner : Owner) (ms : List Moment) : List Batch :=
  ms.flatMap fun m => (m.actions.filterMap Action.write?).filterMap (ownedBy owner)

/-- The batches of an owner whose writes have ended. -/
def finished (owner : Owner) (ms : List Moment) : List Batch :=
  ms.filterMap fun m => (m.before.ended? m.event).bind (ownedBy owner)

/-- What has happened since the last drain. -/
def sinceDrain (ms : List Moment) : List Moment :=
  ms.rtakeWhile fun m => m.drain?.isNone

/-- The edges that were notified of a signal. -/
def notified (signal : Signal) (ms : List Moment) : List EdgeId :=
  ms.filterMap fun m => m.event.mark?.bind fun (other, id) =>
    if other = signal then some id else none

section Runs

theorem run_append (w : Worker) (es more : List Event) :
    w.run (es ++ more) = (w.run es).run more := List.foldl_append

theorem run_concat (w : Worker) (es : List Event) (e : Event) :
    w.run (es ++ [e]) = ((w.run es).step e).1 := run_append w es [e]

theorem moments_append (w : Worker) (es more : List Event) :
    w.moments (es ++ more) = w.moments es ++ (w.run es).moments more := by
  induction es generalizing w with
  | nil => rfl
  | cons e rest ih => simp only [List.cons_append, moments, ih, run, List.foldl_cons]

theorem moments_concat (w : Worker) (es : List Event) (e : Event) :
    w.moments (es ++ [e]) = w.moments es ++ [⟨w.run es, e⟩] := moments_append w es [e]

/-- What was before a moment of a run is a run as well, and so is what comes after it. -/
theorem moments_eq_append_cons {w : Worker} {es : List Event} {before after : List Moment}
    {m : Moment} (h : w.moments es = before ++ m :: after) :
    ∃ es₁ e es₂, es = es₁ ++ e :: es₂ ∧ before = w.moments es₁ ∧ m = ⟨w.run es₁, e⟩ ∧
      after = (w.run (es₁ ++ [e])).moments es₂ := by
  induction before generalizing w es with
  | nil =>
    cases es with
    | nil => cases h
    | cons e rest =>
      injection h with hm hr
      exact ⟨[], e, rest, rfl, rfl, hm.symm, hr.symm⟩
  | cons x before ih =>
    cases es with
    | nil => cases h
    | cons e rest =>
      injection h with hx hr
      obtain ⟨es₁, e', es₂, rfl, rfl, hm, ha⟩ := ih hr
      subst hx
      exact ⟨e :: es₁, e', es₂, rfl, rfl, hm, ha⟩

theorem eq_of_mem_moments {w : Worker} {es : List Event} {m : Moment} (h : m ∈ w.moments es) :
    ∃ es₁ e es₂, es = es₁ ++ e :: es₂ ∧ m = ⟨w.run es₁, e⟩ := by
  obtain ⟨before, after, hs⟩ := List.append_of_mem h
  obtain ⟨es₁, e, es₂, he, -, hm, -⟩ := moments_eq_append_cons hs
  exact ⟨es₁, e, es₂, he, hm⟩

theorem events_moments (w : Worker) (es : List Event) : (w.moments es).map (·.event) = es := by
  induction es generalizing w with
  | nil => rfl
  | cons e rest ih => simp only [moments, List.map_cons, ih]

end Runs

section Balance

variable {w : Worker} {e : Event} {owner : Owner}

theorem taken_append (owner : Owner) (ms more : List Moment) :
    taken owner (ms ++ more) = taken owner ms ++ taken owner more := by
  rw [taken, drains, List.filterMap_append, List.flatMap_append]
  rfl

theorem issued_append (owner : Owner) (ms more : List Moment) :
    issued owner (ms ++ more) = issued owner ms ++ issued owner more := List.flatMap_append

theorem finished_append (owner : Owner) (ms more : List Moment) :
    finished owner (ms ++ more) = finished owner ms ++ finished owner more :=
  List.filterMap_append

theorem taken_of_none (hd : w.drain? e = none) : taken owner [⟨w, e⟩] = [] := by
  simp [taken, drains, Moment.drain?, hd]

theorem taken_of_drain {d : Drain} (hd : w.drain? e = some d) :
    taken owner [⟨w, e⟩] = if d.owner = owner then d.batches else [] := by
  by_cases ho : d.owner = owner
  · simp [taken, drains, Moment.drain?, hd, Option.filter, ho]
  · simp [taken, drains, Moment.drain?, hd, Option.filter, ho]

theorem finished_of_none (he : w.ended? e = none) : finished owner [⟨w, e⟩] = [] := by
  simp [finished, he]

theorem finished_of_ended {other : Owner} {b : Batch} (he : w.ended? e = some (other, b)) :
    finished owner [⟨w, e⟩] = if other = owner then [b] else [] := by
  by_cases ho : other = owner
  · simp [finished, he, ownedBy, ho]
  · simp [finished, he, ownedBy, ho]

theorem issued_of_writes {other : Owner} {batches : List Batch}
    (hw : (w.step e).2.filterMap Action.write? = batches.map (other, ·)) :
    issued owner [⟨w, e⟩] = if other = owner then batches else [] := by
  have hi : issued owner [⟨w, e⟩] = batches.filterMap fun b => ownedBy owner (other, b) := by
    simp [issued, Moment.actions, hw, List.filterMap_map]
  rw [hi]
  by_cases ho : other = owner
  · simp [ownedBy, ho]
  · simp [ownedBy, ho]

/-- Nothing of the worker's own is under way when it drains, and nothing of a call's when it begins. -/
theorem outstanding_of_drain {d : Drain} (hd : w.drain? e = some d)
    (hf : ∀ n now, e = .flush n now → w.outstanding (.call n) = []) :
    w.outstanding d.owner = [] := by
  cases drains_of_drain? hd with
  | flush n now => exact hf n now rfl
  | tick now hb => simp only [outstanding, hb]
  | close now hb => simp only [outstanding, hb.1]

/-- What a step takes on and what it brings to an end leave the account of every owner balanced. -/
theorem balance_step (hf : ∀ n now, e = .flush n now → w.outstanding (.call n) = [])
    (owner : Owner) :
    w.outstanding owner ++ taken owner [⟨w, e⟩] =
        finished owner [⟨w, e⟩] ++ (w.step e).1.outstanding owner ∧
      (w.outstanding owner).take 1 ++ issued owner [⟨w, e⟩] =
        finished owner [⟨w, e⟩] ++ ((w.step e).1.outstanding owner).take 1 := by
  cases stage_step w e with
  | rests hd he ho hw =>
    have hi : issued owner [⟨w, e⟩] = [] := by
      have hw' : (w.step e).2.filterMap Action.write? = [].map (owner, ·) := hw
      rw [issued_of_writes hw', if_pos rfl]
    rw [taken_of_none hd, finished_of_none he, ho, hi]
    simp
  | drains d hd he h =>
    have hnone := outstanding_of_drain hd hf
    rw [taken_of_drain hd, finished_of_none he, issued_of_writes h.writes]
    by_cases ho : d.owner = owner
    · subst ho
      simp [hnone, h.own]
    · simp [ho, h.others owner (fun he => ho he.symm)]
  | ends other b rest hd he hout h =>
    rw [taken_of_none hd, finished_of_ended he, issued_of_writes h.writes]
    by_cases ho : other = owner
    · subst ho
      simp [hout, h.own]
    · simp [ho, h.others owner (fun he => ho he.symm)]

theorem outstanding_call_step {n : Nat} (h : w.outstanding (.call n) = [])
    (hf : ∀ now, e ≠ .flush n now) : (w.step e).1.outstanding (.call n) = [] := by
  cases stage_step w e with
  | rests hd he ho hw => rw [ho, h]
  | drains d hd he hg =>
    have ho : Owner.call n ≠ d.owner := by
      intro ho
      cases drains_of_drain? hd with
      | flush m now =>
        cases ho
        exact hf now rfl
      | tick now hb => cases ho
      | close now hb => cases ho
    rw [hg.others _ ho, h]
  | ends other b rest hd he hout hg =>
    have ho : Owner.call n ≠ other := by
      intro ho
      subst ho
      rw [h] at hout
      cases hout
    rw [hg.others _ ho, h]

/-- A call that has not flushed has nothing to write. -/
theorem outstanding_call_run (es : List Event) {n : Nat} (h : ∀ now, .flush n now ∉ es) :
    (run {} es).outstanding (.call n) = [] := by
  induction es using List.reverseRecOn with
  | nil => rfl
  | append_singleton es e ih =>
    rw [run_concat]
    apply outstanding_call_step
    · exact ih fun now hm => h now (List.mem_append_left _ hm)
    · rintro now rfl
      exact h now (by simp)

theorem calls_append (es more : List Event) : calls (es ++ more) = calls es ++ calls more :=
  List.filterMap_append

theorem mem_calls {es : List Event} {e : Event} {n : Nat} (hm : e ∈ es) (hn : e.call? = some n) :
    n ∈ calls es := List.mem_filterMap.mpr ⟨e, hm, hn⟩

theorem notMem_calls {es : List Event} {e : Event} {n : Nat} (h : (calls (es ++ [e])).Nodup)
    (hn : e.call? = some n) : n ∉ calls es := by
  rw [calls_append, List.nodup_append] at h
  intro hm
  exact h.2.2 n hm n (mem_calls (List.mem_singleton_self e) hn) rfl

/-- What an owner has drained is what it has written and what it has still to write, in order; and of
the latter only the first one has been asked for. -/
theorem balance_run (es : List Event) (h : (calls es).Nodup) (owner : Owner) :
    taken owner (moments {} es) =
        finished owner (moments {} es) ++ (run {} es).outstanding owner ∧
      issued owner (moments {} es) =
        finished owner (moments {} es) ++ ((run {} es).outstanding owner).take 1 := by
  induction es using List.reverseRecOn with
  | nil =>
    cases owner with
    | background => exact ⟨rfl, rfl⟩
    | call n => exact ⟨rfl, rfl⟩
  | append_singleton es e ih =>
    have hfresh (n : Nat) (now : Timestamp) (he : e = .flush n now) :
        (run {} es).outstanding (.call n) = [] := by
      apply outstanding_call_run
      intro now' hm
      exact notMem_calls h (by rw [he]; rfl) (mem_calls hm rfl)
    have hold := ih (List.nodup_append.mp (calls_append es [e] ▸ h)).1
    obtain ⟨ht, hi⟩ := balance_step hfresh owner
    rw [moments_concat, run_concat, taken_append, issued_append, finished_append, hold.1, hold.2]
    simp only [List.append_assoc]
    rw [ht, hi]
    exact ⟨rfl, rfl⟩

end Balance

section Marks

theorem notified_append (signal : Signal) (ms more : List Moment) :
    notified signal (ms ++ more) = notified signal ms ++ notified signal more :=
  List.filterMap_append

theorem sinceDrain_of_drain {ms : List Moment} {m : Moment} {d : Drain} (hd : m.drain? = some d) :
    sinceDrain (ms ++ [m]) = [] :=
  List.rtakeWhile_concat_neg _ _ _ (by simp [hd])

theorem sinceDrain_append (ms : List Moment) {more : List Moment}
    (h : ∀ m ∈ more, m.drain? = none) : sinceDrain (ms ++ more) = sinceDrain ms ++ more := by
  induction more using List.reverseRecOn with
  | nil => simp
  | append_singleton more m ih =>
    have hm : m.drain?.isNone = true := by simp [h m (by simp)]
    have hold := ih fun x hx => h x (List.mem_append_left _ hx)
    have hlast : sinceDrain (ms ++ more ++ [m]) = sinceDrain (ms ++ more) ++ [m] :=
      List.rtakeWhile_concat_pos _ _ _ hm
    rw [← List.append_assoc, hlast, hold, List.append_assoc]

theorem mem_of_step {w : Worker} {e : Event} (hd : w.drain? e = none) (signal : Signal)
    (id : EdgeId) :
    id ∈ (w.step e).1.pending.of signal ↔
      id ∈ w.pending.of signal ∨ id ∈ notified signal [⟨w, e⟩] := by
  cases hm : e.mark? with
  | none => simp [pending_step_of_quiet hd hm, notified, hm]
  | some p =>
    obtain ⟨other, marked⟩ := p
    obtain rfl := Event.mark?_eq_some hm
    rw [pending_step_mark, Pending.of_mark]
    by_cases ho : other = signal
    · simp only [ho, if_true, Ordered.mem_add, notified, List.filterMap_cons, Event.mark?,
        Option.bind_some, List.filterMap_nil, List.mem_singleton]
      exact or_comm
    · simp [ho, notified, Event.mark?]

/-- The marks are what has been notified since the last drain. -/
theorem mem_pending_run (es : List Event) (signal : Signal) (id : EdgeId) :
    id ∈ (run {} es).pending.of signal ↔ id ∈ notified signal (sinceDrain (moments {} es)) := by
  induction es using List.reverseRecOn with
  | nil => cases signal <;> exact Iff.rfl
  | append_singleton es e ih =>
    rw [run_concat, moments_concat]
    cases hd : (run {} es).drain? e with
    | some d =>
      have hs : sinceDrain (moments {} es ++ [⟨run {} es, e⟩]) = [] := sinceDrain_of_drain hd
      rw [pending_step_of_drain hd, hs]
      cases signal <;> exact Iff.rfl
    | none =>
      have hquiet : ∀ m ∈ [(⟨run {} es, e⟩ : Moment)], m.drain? = none := by
        intro m hm
        rw [List.mem_singleton.mp hm]
        exact hd
      have hs := sinceDrain_append (moments {} es) hquiet
      rw [hs, notified_append, List.mem_append, ← ih]
      exact mem_of_step hd signal id

theorem ascending_pending_run (es : List Event) (signal : Signal) :
    Ordered.Ascending ((run {} es).pending.of signal) := by
  induction es using List.reverseRecOn with
  | nil => cases signal <;> exact List.Pairwise.nil
  | append_singleton es e ih =>
    rw [run_concat]
    cases hd : (run {} es).drain? e with
    | some d =>
      rw [pending_step_of_drain hd]
      cases signal <;> exact List.Pairwise.nil
    | none =>
      cases hm : e.mark? with
      | none =>
        rw [pending_step_of_quiet hd hm]
        exact ih
      | some p =>
        obtain rfl := Event.mark?_eq_some hm
        rw [pending_step_mark, Pending.of_mark]
        split
        · exact Ordered.ascending_add _ ih
        · exact ih

theorem coalesced_of_ascending {d : Drain} {signal : Signal}
    (h : Ordered.Ascending (d.pending.of signal)) : d.Coalesced signal := by
  by_cases hn : d.pending.of signal = []
  · left
    exact ⟨hn, by simp [Pending.writesOf, Pending.batch, hn]⟩
  · right
    refine ⟨⟨signal.field, (d.pending.of signal).map (·.value), d.now.stored⟩, ?_, rfl, rfl, ?_, ?_,
      ?_⟩
    · simp [Pending.writesOf, Pending.batch, hn]
    · simpa using hn
    · apply List.pairwise_map.mpr
      apply h.imp
      intro a b hab
      have hlt : compare a.value b.value = .lt := Ordering.isLT_iff_eq_lt.mp hab
      exact Std.compare_eq_lt.mp hlt
    · intro n
      exact List.mem_map

end Marks

end Worker

end EdgeFleet.WriteBack
