import EdgeFleet.WriteBack.Worker

namespace EdgeFleet.WriteBack

open Directory (Field)

/-- The field that takes the moments of a signal. -/
def Signal.field : Signal → Field
  | .message => .lastMessage
  | .data => .lastUpdate

namespace Pending

def of (p : Pending) : Signal → List EdgeId
  | .message => p.messages
  | .data => p.data

theorem of_mark (p : Pending) (signal other : Signal) (id : EdgeId) :
    (p.mark signal id).of other = if signal = other then Ordered.add id (p.of other) else p.of other := by
  cases signal <;> cases other <;> rfl

def writesOf (p : Pending) (now : Timestamp) (signal : Signal) : List Batch :=
  batch signal.field (p.of signal) now

theorem field_of_mem_batch {field : Field} {ids : List EdgeId} {now : Timestamp} {b : Batch}
    (h : b ∈ batch field ids now) : b.field = field := by
  rw [(mem_batch.mp h).2]

/-- The writes of a drain that concern a field are those of its signal's marks. -/
theorem filter_batches (p : Pending) (now : Timestamp) (signal : Signal) :
    (p.batches now).filter (·.field = signal.field) = p.writesOf now signal := by
  have hown (field : Field) (ids : List EdgeId) :
      (batch field ids now).filter (·.field = field) = batch field ids now := by
    apply List.filter_eq_self.mpr
    intro b hb
    exact decide_eq_true (field_of_mem_batch hb)
  have hother {field other : Field} (hne : field ≠ other) (ids : List EdgeId) :
      (batch field ids now).filter (·.field = other) = [] := by
    apply List.filter_eq_nil_iff.mpr
    intro b hb hf
    exact hne ((field_of_mem_batch hb).symm.trans (of_decide_eq_true hf))
  rw [batches, List.filter_append]
  cases signal with
  | message => rw [Signal.field, hown, hother (by decide), List.append_nil]; rfl
  | data => rw [Signal.field, hown, hother (by decide), List.nil_append]; rfl

theorem length_batches_le (p : Pending) (now : Timestamp) : (p.batches now).length ≤ 2 := by
  have hbatch (field : Field) (ids : List EdgeId) : (batch field ids now).length ≤ 1 := by
    unfold batch
    split <;> simp
  have hm := hbatch .lastMessage p.messages
  have hd := hbatch .lastUpdate p.data
  rw [batches, List.length_append]
  omega

theorem signal_of_mem_batches {p : Pending} {now : Timestamp} {b : Batch}
    (h : b ∈ p.batches now) : ∃ signal : Signal, b.field = signal.field := by
  rcases List.mem_append.mp h with h | h
  · exact ⟨.message, field_of_mem_batch h⟩
  · exact ⟨.data, field_of_mem_batch h⟩

end Pending

/-- The marks that somebody took, all at once, and the moment they are written with. -/
structure Drain where
  owner : Owner
  pending : Pending
  now : Timestamp

/-- The writes that a drain leads to. -/
def Drain.batches (d : Drain) : List Batch := d.pending.batches d.now

namespace Worker

/-- The batches of an owner that are not written yet; the first one is being written. -/
def outstanding (w : Worker) : Owner → List Batch
  | .background =>
    match w.background with
    | .flushing batches | .closing batches => batches
    | .idle | .stopped => []
  | .call n =>
    match w.flushes.find? (·.1 = n) with
    | some (_, batches) => batches
    | none => []

/-- The drain that an event brings about. -/
def drain? (w : Worker) : Event → Option Drain
  | .flush n now => some ⟨.call n, w.pending, now⟩
  | .tick now => if w.background = .idle then some ⟨.background, w.pending, now⟩ else none
  | .close now =>
    if w.background = .idle ∧ w.closed then some ⟨.background, w.pending, now⟩ else none
  | .mark .. | .dispose _ | .written _ => none

/-- The batch whose write an event ends. -/
def ended? (w : Worker) : Event → Option (Owner × Batch)
  | .written owner => (w.outstanding owner).head?.map (owner, ·)
  | _ => none

/-- The mark that an event brings. -/
def Event.mark? : Event → Option (Signal × EdgeId)
  | .mark signal id => some (signal, id)
  | _ => none

theorem Event.mark?_eq_some {e : Event} {p : Signal × EdgeId} (h : e.mark? = some p) :
    e = .mark p.1 p.2 := by
  cases e with
  | mark signal id =>
    cases h
    rfl
  | flush n now => cases h
  | tick now => cases h
  | dispose n => cases h
  | close now => cases h
  | written owner => cases h

/-- The write that an action asks for. -/
def Action.write? : Action → Option (Owner × Batch)
  | .write owner b => some (owner, b)
  | .ended _ => none

/-- An owner goes on with some batches: it asks for the first one and keeps all of them. -/
structure GoesOn (w : Worker) (owner : Owner) (batches : List Batch)
    (r : Worker × List Action) : Prop where
  own : r.1.outstanding owner = batches
  others : ∀ other, other ≠ owner → r.1.outstanding other = w.outstanding other
  writes : r.2.filterMap Action.write? = (batches.take 1).map (owner, ·)

/-- The moves of the worker: what it does about each event, where `skip` is one that it passes over. -/
inductive Move (w : Worker) : Event → Worker × List Action → Prop
  | skip (e : Event) (hd : w.drain? e = none) (he : w.ended? e = none) (hm : e.mark? = none) :
      Move w e (w, [])
  | mark (signal : Signal) (id : EdgeId) :
      Move w (.mark signal id) ({ w with pending := w.pending.mark signal id }, [])
  | flush (n : Nat) (now : Timestamp) :
      Move w (.flush n now) (w.drained.goOnFlush n (w.pending.batches now))
  | tick (now : Timestamp) (hb : w.background = .idle) :
      Move w (.tick now) (w.drained.goOnTick (w.pending.batches now))
  | close (now : Timestamp) (hb : w.background = .idle) (hc : w.closed = true) :
      Move w (.close now) (w.drained.goOnClose (w.pending.batches now))
  | dispose (n : Nat) (hc : w.closed = false) :
      Move w (.dispose n) ({ w with closed := true, waiting := some n }, [])
  | disposed (n : Nat) (hc : w.closed = true) : Move w (.dispose n) (w, [.ended n])
  | flushed (n : Nat) (b : Batch) (rest : List Batch) (ho : w.outstanding (.call n) = b :: rest) :
      Move w (.written (.call n)) (w.goOnFlush n rest)
  | ticked (b : Batch) (rest : List Batch) (hb : w.background = .flushing (b :: rest)) :
      Move w (.written .background) (w.goOnTick rest)
  | closed (b : Batch) (rest : List Batch) (hb : w.background = .closing (b :: rest)) :
      Move w (.written .background) (w.goOnClose rest)

/-- A write that ends is the first one of its owner; without one, the event is passed over. -/
theorem move_written (w : Worker) (owner : Owner) :
    w.Move (.written owner) (w.step (.written owner)) := by
  cases owner with
  | background =>
    simp only [step]
    split
    · rename_i b rest hb
      exact .ticked b rest hb
    · rename_i b rest hb
      exact .closed b rest hb
    · rename_i hf hc
      have ho : w.outstanding .background = [] := by
        cases hb : w.background with
        | idle => simp only [outstanding, hb]
        | stopped => simp only [outstanding, hb]
        | flushing batches =>
          cases batches with
          | nil => simp only [outstanding, hb]
          | cons b rest => exact absurd hb (hf b rest)
        | closing batches =>
          cases batches with
          | nil => simp only [outstanding, hb]
          | cons b rest => exact absurd hb (hc b rest)
      exact .skip _ rfl (by simp [ended?, ho]) rfl
  | call n =>
    simp only [step]
    split
    · rename_i m b rest hf
      exact .flushed n b rest (by simp only [outstanding, hf])
    · rename_i hf
      have ho : w.outstanding (.call n) = [] := by
        cases hb : w.flushes.find? (·.1 = n) with
        | none => simp only [outstanding, hb]
        | some p =>
          obtain ⟨m, batches⟩ := p
          cases batches with
          | nil => simp only [outstanding, hb]
          | cons b rest => exact absurd hb (hf m b rest)
      exact .skip _ rfl (by simp [ended?, ho]) rfl

/-- Every step is a move. -/
theorem move_step (w : Worker) (e : Event) : w.Move e (w.step e) := by
  cases e with
  | mark signal id => exact .mark signal id
  | flush n now => exact .flush n now
  | tick now =>
    by_cases hb : w.background = .idle
    · simp only [step, hb, if_true]
      exact .tick now hb
    · simp only [step, hb, if_false]
      exact .skip _ (by simp only [drain?, hb, if_false]) rfl rfl
  | dispose n =>
    cases hc : w.closed with
    | true =>
      simp only [step, hc, if_true]
      exact .disposed n hc
    | false =>
      simp only [step, hc, Bool.false_eq_true, if_false]
      exact .dispose n hc
  | close now =>
    by_cases hb : w.background = .idle ∧ w.closed = true
    · simp only [step, if_pos hb]
      exact .close now hb.1 hb.2
    · simp only [step, if_neg hb]
      exact .skip _ (by simp only [drain?, if_neg hb]) rfl rfl
  | written owner => exact move_written w owner

/-- The stages that an event can bring the worker to. -/
inductive Stage (w : Worker) (e : Event) (r : Worker × List Action) : Prop
  | rests (hd : w.drain? e = none) (he : w.ended? e = none)
      (ho : ∀ owner, r.1.outstanding owner = w.outstanding owner)
      (hw : r.2.filterMap Action.write? = [])
  | drains (d : Drain) (hd : w.drain? e = some d) (he : w.ended? e = none)
      (h : w.GoesOn d.owner d.batches r)
  | ends (owner : Owner) (b : Batch) (rest : List Batch) (hd : w.drain? e = none)
      (he : w.ended? e = some (owner, b)) (ho : w.outstanding owner = b :: rest)
      (h : w.GoesOn owner rest r)

theorem goesOn_goOnFlush (w : Worker) (n : Nat) (batches : List Batch) :
    w.GoesOn (.call n) batches (w.goOnFlush n batches) := by
  have hothers (m : Nat) (hm : m ≠ n) :
      (w.flushes.filter (·.1 ≠ n)).find? (·.1 = m) = w.flushes.find? (·.1 = m) := by
    rw [List.find?_filter]
    congr 1
    funext p
    by_cases hp : p.1 = m
    · simp [hp, hm]
    · simp [hp]
  have hnone : (w.flushes.filter (·.1 ≠ n)).find? (·.1 = n) = none := by
    apply List.find?_eq_none.mpr
    intro p hp
    simpa using (List.mem_filter.mp hp).2
  cases batches with
  | nil =>
    refine ⟨?_, fun other ho => ?_, rfl⟩
    · simp only [goOnFlush, outstanding, hnone]
    · cases other with
      | background => rfl
      | call m =>
        have hm : m ≠ n := fun he => ho (he ▸ rfl)
        simp only [goOnFlush, outstanding, hothers m hm]
  | cons b rest =>
    refine ⟨?_, fun other ho => ?_, rfl⟩
    · simp only [goOnFlush, outstanding, List.find?_cons, decide_true]
    · cases other with
      | background => rfl
      | call m =>
        have hm : m ≠ n := fun he => ho (he ▸ rfl)
        have hn : decide (n = m) = false := decide_eq_false fun he => hm he.symm
        simp only [goOnFlush, outstanding, List.find?_cons, hn, hothers m hm]

theorem outstanding_withBackground (w : Worker) (background : Background) (other : Owner)
    (ho : other ≠ .background) : { w with background }.outstanding other = w.outstanding other := by
  cases other with
  | background => exact absurd rfl ho
  | call n => rfl

theorem goesOn_goOnTick (w : Worker) (batches : List Batch) :
    w.GoesOn .background batches (w.goOnTick batches) := by
  cases batches with
  | nil => exact ⟨rfl, w.outstanding_withBackground _, rfl⟩
  | cons b rest => exact ⟨rfl, w.outstanding_withBackground _, rfl⟩

theorem goesOn_goOnClose (w : Worker) (batches : List Batch) :
    w.GoesOn .background batches (w.goOnClose batches) := by
  cases batches with
  | nil =>
    refine ⟨rfl, w.outstanding_withBackground _, ?_⟩
    simp only [goOnClose, endWaiting]
    cases w.waiting <;> rfl
  | cons b rest => exact ⟨rfl, w.outstanding_withBackground _, rfl⟩

theorem GoesOn.of_drained {w : Worker} {owner : Owner} {batches : List Batch}
    {r : Worker × List Action} (h : w.drained.GoesOn owner batches r) :
    w.GoesOn owner batches r :=
  ⟨h.own, fun other ho => (h.others other ho).trans (by cases other <;> rfl), h.writes⟩

theorem stage_written {w : Worker} {owner : Owner} {b : Batch} {rest : List Batch}
    {r : Worker × List Action} (ho : w.outstanding owner = b :: rest) (h : w.GoesOn owner rest r) :
    w.Stage (.written owner) r :=
  .ends owner b rest rfl (by simp [ended?, ho]) ho h

/-- Every step is a drain, or ends a write, or rests. -/
theorem stage_step (w : Worker) (e : Event) : w.Stage e (w.step e) := by
  have h := move_step w e
  generalize w.step e = r at h
  cases h with
  | skip e hd he hm => exact .rests hd he (fun _ => rfl) rfl
  | mark signal id => exact .rests rfl rfl (fun owner => by cases owner <;> rfl) rfl
  | flush n now => exact .drains ⟨.call n, w.pending, now⟩ rfl rfl (goesOn_goOnFlush _ _ _).of_drained
  | tick now hb =>
    have hd : w.drain? (.tick now) = some ⟨.background, w.pending, now⟩ := by
      simp only [drain?, hb, if_true]
    exact .drains _ hd rfl (goesOn_goOnTick _ _).of_drained
  | close now hb hc =>
    have hd : w.drain? (.close now) = some ⟨.background, w.pending, now⟩ := by
      simp only [drain?, hb, hc, and_self, if_true]
    exact .drains _ hd rfl (goesOn_goOnClose _ _).of_drained
  | dispose n hc => exact .rests rfl rfl (fun owner => by cases owner <;> rfl) rfl
  | disposed n hc => exact .rests rfl rfl (fun _ => rfl) rfl
  | flushed n b rest ho => exact stage_written ho (goesOn_goOnFlush w n rest)
  | ticked b rest hb =>
    have ho : w.outstanding .background = b :: rest := by simp only [outstanding, hb]
    exact stage_written ho (goesOn_goOnTick w rest)
  | closed b rest hb =>
    have ho : w.outstanding .background = b :: rest := by simp only [outstanding, hb]
    exact stage_written ho (goesOn_goOnClose w rest)

/-- The drains there are: a call drains when it begins, and the worker on its own when it ticks and
when it is closed, each time while it is idle. -/
inductive Drains (w : Worker) : Event → Drain → Prop
  | flush (n : Nat) (now : Timestamp) : Drains w (.flush n now) ⟨.call n, w.pending, now⟩
  | tick (now : Timestamp) (hb : w.background = .idle) :
      Drains w (.tick now) ⟨.background, w.pending, now⟩
  | close (now : Timestamp) (hb : w.background = .idle ∧ w.closed = true) :
      Drains w (.close now) ⟨.background, w.pending, now⟩

theorem drains_of_drain? {w : Worker} {e : Event} {d : Drain} (h : w.drain? e = some d) :
    w.Drains e d := by
  cases e with
  | flush n now =>
    cases h
    exact .flush n now
  | tick now =>
    simp only [drain?] at h
    split at h
    · rename_i hb
      cases h
      exact .tick now hb
    · cases h
  | close now =>
    simp only [drain?] at h
    split at h
    · rename_i hb
      cases h
      exact .close now hb
    · cases h
  | mark signal id => cases h
  | dispose n => cases h
  | written owner => cases h

theorem Drains.pending_eq {w : Worker} {e : Event} {d : Drain} (h : w.Drains e d) :
    d.pending = w.pending := by
  cases h <;> rfl

theorem pending_step_of_drain {w : Worker} {e : Event} {d : Drain} (h : w.drain? e = some d) :
    (w.step e).1.pending = {} := by
  cases drains_of_drain? h with
  | flush n now => exact pending_step_flush w n now
  | tick now hb => exact pending_step_tick hb now
  | close now hb =>
    simp only [step, if_pos hb, pending_goOnClose]
    rfl

theorem pending_step_mark (w : Worker) (signal : Signal) (id : EdgeId) :
    (w.step (.mark signal id)).1.pending = w.pending.mark signal id := rfl

/-- What is neither drained nor marked stays as it is, writes under way or not. -/
theorem pending_step_of_quiet {w : Worker} {e : Event} (hd : w.drain? e = none)
    (hm : e.mark? = none) : (w.step e).1.pending = w.pending := by
  have h := move_step w e
  generalize w.step e = r at h ⊢
  cases h with
  | skip e hd he hm => rfl
  | mark signal id => cases hm
  | flush n now => cases hd
  | tick now hb =>
    simp only [drain?, hb, if_true] at hd
    cases hd
  | close now hb hc =>
    simp only [drain?, hb, hc, and_self, if_true] at hd
    cases hd
  | dispose n hc => rfl
  | disposed n hc => rfl
  | flushed n b rest ho => exact pending_goOnFlush w n rest
  | ticked b rest hb => exact pending_goOnTick w rest
  | closed b rest hb => exact pending_goOnClose w rest

/-- The write that is asked for in a step is under way after it. -/
theorem mem_outstanding_step {w : Worker} {e : Event} {owner : Owner} {b : Batch}
    (h : Action.write owner b ∈ (w.step e).2) : b ∈ (w.step e).1.outstanding owner := by
  have hw : (owner, b) ∈ (w.step e).2.filterMap Action.write? :=
    List.mem_filterMap.mpr ⟨_, h, rfl⟩
  have hgoes {other : Owner} {batches : List Batch} (hg : w.GoesOn other batches (w.step e)) :
      b ∈ (w.step e).1.outstanding owner := by
    rw [hg.writes] at hw
    obtain ⟨b', hb, he⟩ := List.mem_map.mp hw
    cases he
    rw [hg.own]
    exact List.mem_of_mem_take hb
  cases stage_step w e with
  | rests hd he ho hn =>
    rw [hn] at hw
    cases hw
  | drains d hd he hg => exact hgoes hg
  | ends other b' rest hd he ho hg => exact hgoes hg

/-- What is under way after a step was under way before or has just been drained. -/
theorem mem_outstanding_of_step {w : Worker} {e : Event} {owner : Owner} {b : Batch}
    (h : b ∈ (w.step e).1.outstanding owner) :
    b ∈ w.outstanding owner ∨ ∃ now, b ∈ w.pending.batches now := by
  cases stage_step w e with
  | rests hd he ho hn => exact Or.inl (ho owner ▸ h)
  | drains d hd he hg =>
    by_cases hown : owner = d.owner
    · subst hown
      rw [hg.own, Drain.batches, (drains_of_drain? hd).pending_eq] at h
      exact Or.inr ⟨d.now, h⟩
    · exact Or.inl (hg.others owner hown ▸ h)
  | ends other b' rest hd he ho hg =>
    by_cases hown : owner = other
    · subst hown
      rw [hg.own] at h
      exact Or.inl (ho ▸ List.mem_cons_of_mem b' h)
    · exact Or.inl (hg.others owner hown ▸ h)

end Worker

end EdgeFleet.WriteBack
