import EdgeFleet.Proofs.Simulation.Calm
import EdgeFleet.Proofs.WriteBack.Drain

namespace EdgeFleet.Simulation

open Directory (Field)
open WriteBack (Batch Owner Worker)

variable {s : Simulation} {id : EdgeId}

def writeBatches (m : Directory.Memory) (batches : List Batch) : Directory.Memory :=
  m.writeAll (batches.map fun b => ⟨b.ids, b.field, .text b.stamp⟩)

/-- A batch is written at once; after a write of its own the worker looks at its clock. -/
theorem settle_batch {e : Service.Event} {turns : List Turn} {service : Service} {owner : Owner}
    {b : Batch} (ht : s.turns = .event e :: turns)
    (hs : s.service.step e = (service, [.writeBatch owner b])) (hh : s.holding = [])
    (hr : s.refusing = false) (fuel : Nat) :
    settle (fuel + 1) s = settle fuel (s.afterWrite b.ids b.field (.text b.stamp) service
      (.event (.worker (.written owner)) ::
        (if endsFlush e then .lookAtClock :: turns else turns))) := by
  simp only [settle_event ht, handle, afterWrite, hs, List.foldl_cons, List.foldl_nil, act, makeCall, hh,
    List.contains_nil, Bool.false_eq_true, if_false, callDirectory, writeNow, hr, next]

section Call

/-- What is left of a flush on a call is written, and the call ends. -/
theorem settle_goOnFlush {n : Nat} (batches : List Batch) {e : Service.Event} {w : Worker}
    (ht : s.turns = [.event e]) (he : endsFlush e = false)
    (hs : s.service.step e = ({ s.service with worker := (w.goOnFlush n batches).1 },
      (w.goOnFlush n batches).2.map Service.ofWorker))
    (ho : w.flushes.filter (·.1 ≠ n) = []) (hh : s.holding = []) (hr : s.refusing = false)
    (hw : s.waiting = [⟨n, .done, none⟩]) (fuel : Nat) :
    ∃ log, settle (fuel + (batches.length + 1)) s = { s with
      service := { s.service with worker := { w with flushes := [] } }
      directory := writeBatches s.directory batches
      turns := [], waiting := [], log, ended := s.ended ++ [(n, .done)] } := by
  -- by induction on what is left; the event at hand is the call at first, and then the end of a write
  induction batches generalizing s e w with
  | nil =>
    simp only [Worker.goOnFlush, ho] at hs
    have hpresent (s' : Simulation) : s'.present .done .done = (s', .done) := rfl
    have hend := settle_finish ht he hs hw (hpresent _) hw fuel
    exact ⟨s.log, hend.trans (settle_nil rfl _)⟩
  | cons b rest ih =>
    simp only [Worker.goOnFlush, ho] at hs
    have hwrite := settle_batch ht hs hh hr (fuel + (rest.length + 1))
    rw [he] at hwrite
    let w' : Worker := { w with flushes := [(n, b :: rest)] }
    let writing := s.afterWrite b.ids b.field (.text b.stamp) { s.service with worker := w' }
      [.event (.worker (.written (.call n)))]
    have hstep : writing.service.step (.worker (.written (.call n))) =
        ({ s.service with worker := (w'.goOnFlush n rest).1 },
          (w'.goOnFlush n rest).2.map Service.ofWorker) := by
      have hfind : w'.flushes.find? (·.1 = n) = some (n, b :: rest) := by simp [w']
      simp only [writing, afterWrite, Service.step, Service.stepWorker, Worker.step, hfind]
    obtain ⟨log, hrest⟩ := ih (s := writing) rfl rfl hstep (by simp [w']) hh hr hw
    exact ⟨log, hwrite.trans hrest⟩

/-- A flush on a call writes what is marked. -/
theorem run_flush (hc : s.Calm id) (n : Nat) :
    ∃ log, s.run n .flush =
      ({ s with
          service := { s.service with worker := { s.service.worker with pending := {}, flushes := [] } }
          directory := writeBatches s.directory (s.service.worker.pending.batches s.time)
          turns := [], waiting := [], log, ended := [(n, .done)] },
        ⟨some .done, [], log⟩) := by
  let begun := s.calling n .done (.worker (.flush n s.time))
  let batches := s.service.worker.pending.batches s.time
  obtain ⟨fuel, hf⟩ := settleAll_eq begun
  have hbegin : ({ s with log := [], ended := [] } : Simulation).perform n .flush = begun.settleAll :=
    hc.ready.call_eq n .done _
  have hstep : begun.service.step (.worker (.flush n s.time)) =
      ({ s.service with worker := (s.service.worker.drained.goOnFlush n batches).1 },
        (s.service.worker.drained.goOnFlush n batches).2.map Service.ofWorker) := rfl
  have hothers : s.service.worker.drained.flushes.filter (·.1 ≠ n) = [] := by
    simp [Worker.drained, hc.flushes]
  obtain ⟨log, hflush⟩ := settle_goOnFlush (s := begun) batches rfl rfl hstep hothers hc.holding
    hc.refusing rfl (fuel + 15 - batches.length)
  have hlen : batches.length ≤ 2 := WriteBack.Pending.length_batches_le _ _
  have hfuel : fuel + 15 - batches.length + (batches.length + 1) = fuel + 16 := by omega
  rw [hfuel] at hflush
  exact ⟨log, run_of_perform (hbegin.trans (hf.trans hflush)) rfl⟩

end Call

section Tick

/-- A worker that is idle before its next tick lets every look at the clock pass. -/
theorem settle_looks (k : Nat) (ht : s.turns = List.replicate k .lookAtClock)
    (hi : s.service.worker.background = .idle) (hc : s.service.worker.closed = false)
    (hd : s.now < s.ticker.due) (fuel : Nat) : settle (fuel + k) s = { s with turns := [] } := by
  induction k generalizing s with
  | zero =>
    rw [settle_nil ht]
    cases s
    cases ht
    rfl
  | succ k ih =>
    have hnot : ¬ s.ticker.due ≤ s.now := Nat.not_le.mpr hd
    have hlook : ({ s with turns := List.replicate k .lookAtClock } : Simulation).lookAtClock =
        { s with turns := List.replicate k .lookAtClock } := by
      simp only [lookAtClock, hi, hc, hnot, if_true, if_false, Bool.false_eq_true]
    rw [← Nat.add_assoc, settle_look ht, hlook]
    exact ih rfl hi hc hd

/-- What is left of a flush at a tick is written, and the worker is idle again. -/
theorem settle_goOnTick (batches : List Batch) {k : Nat} {e : Service.Event} {w : Worker}
    (ht : s.turns = .event e :: List.replicate k .lookAtClock) (he : endsFlush e = true)
    (hs : s.service.step e = ({ s.service with worker := (w.goOnTick batches).1 },
      (w.goOnTick batches).2.map Service.ofWorker))
    (hh : s.holding = []) (hr : s.refusing = false) (hc : w.closed = false)
    (hd : s.now < s.ticker.due) (fuel : Nat) :
    ∃ log, settle (fuel + (2 * batches.length + k + 2)) s = { s with
      service := { s.service with worker := { w with background := .idle } }
      directory := writeBatches s.directory batches
      turns := [], log } := by
  -- every event of the flush leaves one more look at the clock behind, which `k` counts
  induction batches generalizing s e w k with
  | nil =>
    let idle : Simulation := { s with
      service := { s.service with worker := { w with background := .idle } }
      turns := List.replicate (k + 1) .lookAtClock }
    have hidle : settle (fuel + (k + 1) + 1) s = settle (fuel + (k + 1)) idle := by
      rw [settle_event ht, handle, hs]
      simp only [Worker.goOnTick, he, if_true, List.map_nil, List.foldl_nil, idle,
        List.replicate_succ]
    have hlooks := settle_looks (s := idle) (k + 1) rfl rfl hc hd fuel
    have hfuel : fuel + (2 * ([] : List Batch).length + k + 2) = fuel + (k + 1) + 1 := by
      rw [List.length_nil]
      omega
    exact ⟨s.log, by rw [hfuel, hidle, hlooks]; rfl⟩
  | cons b rest ih =>
    have hwrite := settle_batch ht hs hh hr (fuel + (2 * rest.length + (k + 1) + 2))
    rw [he, if_pos rfl] at hwrite
    let w' : Worker := { w with background := .flushing (b :: rest) }
    let writing := s.afterWrite b.ids b.field (.text b.stamp) { s.service with worker := w' }
      (.event (.worker (.written .background)) :: List.replicate (k + 1) .lookAtClock)
    have hstep : writing.service.step (.worker (.written .background)) =
        ({ s.service with worker := (w'.goOnTick rest).1 },
          (w'.goOnTick rest).2.map Service.ofWorker) := rfl
    obtain ⟨log, hrest⟩ := ih (s := writing) rfl rfl hstep hh hr hc hd
    have hfuel : fuel + (2 * (b :: rest).length + k + 2) =
        fuel + (2 * rest.length + (k + 1) + 2) + 1 := by
      rw [List.length_cons]
      omega
    exact ⟨log, by rw [hfuel]; exact hwrite.trans hrest⟩

/-- A tick that is due is later than the moment at which it is noticed. -/
theorem lt_due_fire {t : WriteBack.Ticker} {now : Nat} (hp : WriteBack.Ticker.tolerance < t.period)
    (hd : t.due ≤ now) : now < (t.fire now).due := by
  have hp' : 5 < t.period := hp
  rcases Nat.lt_or_ge (t.due + WriteBack.Ticker.tolerance) now with hlate | hearly
  · rw [WriteBack.Ticker.due_fire_of_lt hlate]
    omega
  · rw [WriteBack.Ticker.due_fire_of_le hearly]
    have hearly' : now ≤ t.due + 5 := hearly
    omega

end Tick

section Flushed

/-- A run in which only the worker and its clock have gone on, and only moments were written. -/
def Flushed (s s' : Simulation) : Prop :=
  ∃ worker ticker batches now log ended, s' = { s with
      service := { s.service with worker }
      directory := writeBatches s.directory batches
      ticker, now, turns := [], waiting := [], log, ended } ∧
    worker.background = .idle ∧ worker.closed = false ∧ worker.flushes = [] ∧
    ticker.period = s.ticker.period ∧
    ∀ b ∈ batches, ∃ signal : WriteBack.Signal, b.field = signal.field

theorem Flushed.trans {s s' s'' : Simulation} (h : Flushed s s') (h' : Flushed s' s'') :
    Flushed s s'' := by
  obtain ⟨_, _, batches, _, _, _, rfl, -, -, -, hp, hb⟩ := h
  obtain ⟨worker, ticker, batches', now, log, ended, rfl, hi, hc, hf, hp', hb'⟩ := h'
  refine ⟨worker, ticker, batches ++ batches', now, log, ended, ?_, hi, hc, hf, hp'.trans hp, ?_⟩
  · simp only [writeBatches, Directory.Memory.writeAll, List.map_append, List.foldl_append]
  · intro b h
    rcases List.mem_append.mp h with h | h
    · exact hb b h
    · exact hb' b h

theorem Flushed.calm {s' : Simulation} (h : Flushed s s') (hc : s.Calm id) : s'.Calm id := by
  obtain ⟨_, _, batches, _, _, _, rfl, hi, hcl, hf, hp, -⟩ := h
  exact
    { turns := rfl, waiting := rfl, holding := hc.holding, refusing := hc.refusing, reply := hc.reply
      reads := (Directory.Memory.failReads_writeAll _ _).trans hc.reads
      writes := Directory.Memory.failWrites_writeAll hc.writes _
      tasks := hc.tasks, idle := hi, closed := hcl, flushes := hf, period := by rw [hp]; exact hc.period }

/-- The record is still there, and what makes up an edge is as it was. -/
theorem Flushed.value? {s' : Simulation} (h : Flushed s s') (hc : s.Calm id)
    (hr : (s.directory.record? id.value).isSome = true) :
    (s'.directory.record? id.value).isSome = true ∧
      ∀ field ∈ EdgeRecord.fields,
        s'.directory.value? id.value field = s.directory.value? id.value field := by
  obtain ⟨_, _, batches, _, _, _, rfl, -, -, -, -, hb⟩ := h
  constructor
  · exact (Directory.Memory.isSome_record?_writeAll hc.writes _ _).trans hr
  · intro field hf
    have hnone : Directory.lastSetting? id.value field
        (batches.map fun b => ⟨b.ids, b.field, .text b.stamp⟩) = none := by
      refine (Directory.lastSetting?_append_of_none [] ?_).trans rfl
      intro w hw hsets
      obtain ⟨b, hbm, rfl⟩ := List.mem_map.mp hw
      obtain ⟨signal, hsignal⟩ := hb b hbm
      have hfield : field = signal.field := hsets.1.symm.trans hsignal
      subst hfield
      cases signal <;> exact absurd hf (by decide)
    rw [writeBatches, Directory.Memory.value?_writeAll hc.writes hr, hnone]
    rfl

theorem flushed_look (hc : s.Calm id) (moment : Nat) :
    Flushed s ({ s with now := moment, turns := [.lookAtClock], waiting := [] } :
      Simulation).settleAll := by
  let looking : Simulation := { s with now := moment, turns := [.lookAtClock], waiting := [] }
  obtain ⟨fuel, hf⟩ := settleAll_eq looking
  rcases Nat.lt_or_ge moment s.ticker.due with hd | hd
  · have hlooks := settle_looks (s := looking) 1 rfl hc.idle hc.closed hd (fuel + 15)
    exact ⟨s.service.worker, s.ticker, [], moment, s.log, s.ended, hf.trans hlooks, hc.idle, hc.closed,
      hc.flushes, rfl, by simp⟩
  · -- the tick is due, and there is time enough for the two batches that it may lead to
    let batches := s.service.worker.pending.batches ⟨moment⟩
    let ticking : Simulation := { looking with
      ticker := s.ticker.fire moment
      turns := [.event (.worker (.tick ⟨moment⟩))] }
    have hlook : ({ looking with turns := [] } : Simulation).lookAtClock =
        ({ ticking with turns := [] } : Simulation).handle (.worker (.tick ⟨moment⟩)) := by
      simp only [lookAtClock, looking, ticking, hc.idle, hc.closed, hd, if_true, if_false,
        Bool.false_eq_true, time]
    have htick : settle (fuel + 16) looking = settle (fuel + 16) ticking := by
      rw [settle_look (s := looking) rfl, hlook, settle_event (s := ticking) rfl]
    have hstep : ticking.service.step (.worker (.tick ⟨moment⟩)) =
        ({ s.service with worker := (s.service.worker.drained.goOnTick batches).1 },
          (s.service.worker.drained.goOnTick batches).2.map Service.ofWorker) := by
      simp only [ticking, looking, Service.step, Service.stepWorker, Worker.step, hc.idle, if_true,
        batches]
    obtain ⟨log, hwritten⟩ := settle_goOnTick (s := ticking) (k := 0) batches rfl rfl hstep hc.holding
      hc.refusing hc.closed (lt_due_fire hc.period hd) (fuel + 14 - 2 * batches.length)
    have hlen : batches.length ≤ 2 := WriteBack.Pending.length_batches_le _ _
    have hfuel : fuel + 14 - 2 * batches.length + (2 * batches.length + 0 + 2) = fuel + 16 := by omega
    rw [hfuel] at hwritten
    exact ⟨{ s.service.worker with pending := {}, background := .idle }, s.ticker.fire moment, batches,
      moment, log, s.ended, hf.trans (htick.trans hwritten), rfl, hc.closed, hc.flushes, rfl,
      fun b hb => WriteBack.Pending.signal_of_mem_batches hb⟩

theorem flushed_reach (hc : s.Calm id) (moment : Nat) : Flushed s (s.reach moment) := by
  have hlook := flushed_look hc moment
  have hlater : ({ s with now := moment } : Simulation).later .lookAtClock =
      { s with now := moment, turns := [.lookAtClock], waiting := [] } := by
    simp only [later, hc.turns, hc.waiting, List.nil_append]
  rw [reach, hlater]
  generalize settleAll _ = s' at hlook ⊢
  obtain ⟨worker, ticker, batches, now, log, ended, rfl, hrest⟩ := hlook
  exact ⟨worker, ticker, batches, now, log, ended, rfl, hrest⟩

theorem flushed_now (hc : s.Calm id) (moment : Nat) : Flushed s { s with now := moment } := by
  refine ⟨s.service.worker, s.ticker, [], moment, s.log, s.ended, ?_, hc.idle, hc.closed, hc.flushes,
    rfl, by simp⟩
  have ht := hc.turns
  have hw := hc.waiting
  cases s
  cases ht
  cases hw
  rfl

theorem flushed_advanceTo (hc : s.Calm id) (target fuel : Nat) :
    Flushed s (s.advanceTo target fuel) := by
  induction fuel generalizing s with
  | zero => exact flushed_now hc target
  | succ fuel ih =>
    rw [advanceTo]
    split
    · exact flushed_now hc target
    · have hreach := flushed_reach hc (max ‹Nat› s.now)
      exact hreach.trans (ih (hreach.calm hc))

theorem Flushed.endCommand {s' : Simulation} (h : Flushed s s') (n : Nat) (outcome : Outcome) :
    Flushed s (s'.endCommand n outcome) := by
  obtain ⟨worker, ticker, batches, now, log, ended, rfl, hrest⟩ := h
  exact ⟨worker, ticker, batches, now, log, ended ++ [(n, outcome)], rfl, hrest⟩

theorem flushed_run_flush (hc : s.Calm id) (n : Nat) :
    Flushed s (s.run n .flush).1 ∧ (s.run n .flush).2.outcome = some .done := by
  obtain ⟨log, hrun⟩ := run_flush hc n
  rw [hrun]
  refine ⟨⟨_, s.ticker, _, s.now, log, _, rfl, hc.idle, hc.closed, rfl, rfl, ?_⟩, rfl⟩
  intro b hb
  exact WriteBack.Pending.signal_of_mem_batches hb

theorem flushed_run_advance (hc : s.Calm id) (n millis : Nat) :
    Flushed s (s.run n (.advance millis)).1 ∧ (s.run n (.advance millis)).2.outcome.isSome = true := by
  let cleared : Simulation := { s with log := [], ended := [] }
  have hcleared : cleared.Calm id := { hc with }
  have hpassed := flushed_advanceTo hcleared (cleared.now + millis)
    (millis / cleared.ticker.period + cleared.waiting.length + 2)
  constructor
  · obtain ⟨worker, ticker, batches, now, log, ended, heq, hrest⟩ := hpassed.endCommand n .nothing
    exact ⟨worker, ticker, batches, now, log, ended, heq, hrest⟩
  · simp [run, perform, Simulation.endCommand]

end Flushed

end EdgeFleet.Simulation
