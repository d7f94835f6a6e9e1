import EdgeFleet.Proofs.Directory.Memory
import EdgeFleet.Proofs.WriteBack.Drain
import EdgeFleet.WriteBack.Schedule
import Mathlib.Order.Bounds.Basic

namespace EdgeFleet.WriteBack

open Directory (Memory)

/-- A batch as the directory is told to write it. -/
def Batch.write (b : Batch) : Directory.Write := ⟨b.ids, b.field, .text b.stamp⟩

namespace Schedule

/-- What is asked of a worker before it is closed. -/
inductive Command
  | mark (signal : Signal) (id : EdgeId)
  | flush
  | advance (millis : Nat)
  deriving DecidableEq

def apply (s : Schedule) : Command → Schedule
  | .mark signal id => s.mark signal id
  | .flush => s.flush
  | .advance millis => s.advance millis

/-- The worker after commands, one after the other. -/
def runAll (s : Schedule) (cs : List Command) : Schedule := cs.foldl apply s

theorem runAll_append (s : Schedule) (cs more : List Command) :
    s.runAll (cs ++ more) = (s.runAll cs).runAll more :=
  List.foldl_append

section Run

theorem run_nil (fuel : Nat) (s : Schedule) : s.run fuel [] = s := by
  cases fuel <;> rfl

/-- A flush that goes on with one batch after the other writes all of them. `go` is what the worker
does with the batches that are left, and `done` where it ends. -/
theorem run_batches {go : List Batch → Worker × List Worker.Action} {owner : Owner} {done : Worker}
    {last : List Worker.Action} (hnil : go [] = (done, last))
    (hlast : last = [] ∨ ∃ call, last = [.ended call])
    (hcons : ∀ b rest, (go (b :: rest)).2 = [.write owner b] ∧
      (go (b :: rest)).1.step (.written owner) = go rest)
    (batches : List Batch) {s : Schedule} {e : Worker.Event} (hs : s.worker.step e = go batches)
    (fuel : Nat) :
    s.run (fuel + (batches.length + 1)) [e] =
      { s with worker := done, directory := s.directory.writeAll (batches.map Batch.write) } := by
  -- by induction on what is left; the event at hand is at first the one that begins the flush
  induction batches generalizing s e with
  | nil =>
    rw [hnil] at hs
    obtain rfl | ⟨call, rfl⟩ := hlast
    all_goals
      simp only [List.length_nil, run, hs, List.foldl_cons, List.foldl_nil, perform]
      exact run_nil fuel _
  | cons b rest ih =>
    obtain ⟨hwrite, hnext⟩ := hcons b rest
    have hrest := ih (s := { s with
      worker := (go (b :: rest)).1
      directory := (s.directory.write b.ids b.field (.text b.stamp)).1 }) hnext
    calc s.run (fuel + (rest.length + 1) + 1) [e]
      _ = Schedule.run (fuel + (rest.length + 1)) { s with
            worker := (go (b :: rest)).1
            directory := (s.directory.write b.ids b.field (.text b.stamp)).1 } [.written owner] := by
        simp only [run, hs, hwrite, List.foldl_cons, List.foldl_nil, perform, List.nil_append,
          List.append_nil]
      _ = _ := hrest

/-- A worker that has nothing under way and is not closed. -/
structure Rests (w : Worker) : Prop where
  idle : w.background = .idle
  flushes : w.flushes = []

theorem mark_eq (s : Schedule) (signal : Signal) (id : EdgeId) :
    s.mark signal id =
      { s with worker := { s.worker with pending := s.worker.pending.mark signal id } } := rfl

theorem flush_eq {s : Schedule} (h : Rests s.worker) :
    s.flush = { s with
      worker := s.worker.drained
      directory := s.directory.writeAll ((s.worker.pending.batches s.time).map Batch.write) } := by
  let batches := s.worker.pending.batches s.time
  have hlen : batches.length ≤ 2 := Pending.length_batches_le _ _
  have hnil : s.worker.drained.goOnFlush 0 [] = (s.worker.drained, [.ended 0]) := by
    simp [Worker.goOnFlush, Worker.drained, h.flushes]
  have hcons (b : Batch) (rest : List Batch) :
      (s.worker.drained.goOnFlush 0 (b :: rest)).2 = [.write (.call 0) b] ∧
        (s.worker.drained.goOnFlush 0 (b :: rest)).1.step (.written (.call 0)) =
          s.worker.drained.goOnFlush 0 rest := by
    refine ⟨rfl, ?_⟩
    cases rest <;> simp [Worker.goOnFlush, Worker.step, Worker.drained, h.flushes]
  -- three events are enough: the flush itself, and the end of each of its two batches at most
  have hrun := run_batches hnil (.inr ⟨0, rfl⟩) hcons batches (s := s) (e := .flush 0 s.time) rfl
    (2 - batches.length)
  rwa [show 2 - batches.length + (batches.length + 1) = 3 by omega] at hrun

theorem tick_eq {s : Schedule} (h : Rests s.worker) :
    s.tick = { s with
      now := s.ticker.due
      ticker := ⟨s.ticker.period, s.ticker.due + s.ticker.period⟩
      worker := s.worker.drained
      directory := s.directory.writeAll ((s.worker.pending.batches ⟨s.ticker.due⟩).map Batch.write) } := by
  let batches := s.worker.pending.batches ⟨s.ticker.due⟩
  have hlen : batches.length ≤ 2 := Pending.length_batches_le _ _
  have hnil : s.worker.drained.goOnTick [] = (s.worker.drained, []) := by
    simp [Worker.goOnTick, Worker.drained, h.idle]
  have hcons (b : Batch) (rest : List Batch) :
      (s.worker.drained.goOnTick (b :: rest)).2 = [.write .background b] ∧
        (s.worker.drained.goOnTick (b :: rest)).1.step (.written .background) =
          s.worker.drained.goOnTick rest := by
    refine ⟨rfl, ?_⟩
    cases rest <;> rfl
  let due : Schedule := { s with now := s.ticker.due, ticker := s.ticker.fire s.ticker.due }
  have hstep : due.worker.step (.tick due.time) = s.worker.drained.goOnTick batches := by
    simp only [due, Worker.step, h.idle, if_true]
    rfl
  have hrun := run_batches hnil (.inl rfl) hcons batches hstep (2 - batches.length)
  rw [show 2 - batches.length + (batches.length + 1) = 3 by omega] at hrun
  rw [tick, hrun]
  simp only [due, Ticker.fire_due]
  rfl

end Run

section Reach

/-- The worker at a later moment, with every tick on the way. -/
def reach (s : Schedule) (target : Nat) : Schedule :=
  { ticks (s.ticksUntil target) s with now := target }

theorem advance_eq (s : Schedule) (millis : Nat) : s.advance millis = s.reach (s.now + millis) := rfl

theorem reach_of_lt {s : Schedule} {target : Nat} (h : target < s.ticker.due) :
    s.reach target = { s with now := target } := by
  rw [reach, ticksUntil, if_neg (Nat.not_le.mpr h)]
  rfl

theorem reach_now (s : Schedule) (now target : Nat) :
    { s with now := now }.reach target = s.reach target := by
  have hticks : { s with now := now }.ticksUntil target = s.ticksUntil target := rfl
  rw [reach, reach, hticks]
  cases s.ticksUntil target <;> rfl

/-- Where the worker is on the grid of a period: it rests, and the next tick is at the first multiple
of the period to come. -/
structure OnGrid (period : Nat) (s : Schedule) : Prop where
  rests : Rests s.worker
  period_eq : s.ticker.period = period
  dvd : period ∣ s.ticker.due
  lt : s.now < s.ticker.due
  le : s.ticker.due ≤ s.now + period

variable {period target : Nat} {s : Schedule}

theorem OnGrid.pos (h : s.OnGrid period) : 0 < period := by
  have := h.lt
  have := h.le
  omega

theorem OnGrid.isLeast (h : s.OnGrid period) :
    IsLeast {k | period ∣ k ∧ s.now < k} s.ticker.due := by
  refine ⟨⟨h.dvd, h.lt⟩, ?_⟩
  rintro k ⟨hk, hlt⟩
  by_contra hless
  have hdiff : period ≤ s.ticker.due - k :=
    Nat.le_of_dvd (by omega) (Nat.dvd_sub h.dvd hk)
  have := h.le
  omega

theorem OnGrid.tick (h : s.OnGrid period) : s.tick.OnGrid period := by
  rw [tick_eq h.rests]
  exact
    { rests := ⟨h.rests.idle, h.rests.flushes⟩
      period_eq := h.period_eq
      dvd := by simpa only [h.period_eq] using Nat.dvd_add h.dvd (Nat.dvd_refl period)
      lt := by simpa only [h.period_eq] using Nat.lt_add_of_pos_right h.pos
      le := by simp only [h.period_eq, Nat.le_refl] }

theorem reach_of_le (h : s.OnGrid period) (hle : s.ticker.due ≤ target) :
    s.reach target = s.tick.reach target := by
  have hpos := h.pos
  have hnext : s.tick.ticker = ⟨s.ticker.period, s.ticker.due + s.ticker.period⟩ := by
    rw [tick_eq h.rests]
  have hticks : s.ticksUntil target = s.tick.ticksUntil target + 1 := by
    simp only [ticksUntil, hnext, h.period_eq, if_pos hle]
    split
    · rename_i hsecond
      rw [Nat.div_eq_sub_div hpos (by omega), Nat.sub_sub]
    · rw [Nat.div_eq_of_lt (by omega)]
  rw [reach, reach, hticks]
  rfl

/-- What holds of a worker that waits for its next tick, and before a tick if after it, holds of a
worker on the grid. -/
theorem OnGrid.reach_induct {motive : Schedule → Prop}
    (wait : ∀ s, s.OnGrid period → s.now ≤ target → target < s.ticker.due → motive s)
    (tick : ∀ s, s.OnGrid period → s.ticker.due ≤ target → motive s.tick → motive s)
    (h : s.OnGrid period) (hle : s.now ≤ target) : motive s := by
  -- by induction on how far the target is behind the next tick; each tick comes nearer by a period
  obtain ⟨n, hn⟩ : ∃ n, target < s.ticker.due + n := ⟨target + 1, by omega⟩
  induction n generalizing s with
  | zero => exact wait s h hle hn
  | succ n ih =>
    by_cases hd : target < s.ticker.due
    · exact wait s h hle hd
    · have hpos := h.pos
      apply tick s h (by omega)
      apply ih h.tick
      · rw [tick_eq h.rests]
        exact Nat.not_lt.mp hd
      · rw [tick_eq h.rests, h.period_eq]
        simp only
        omega

theorem OnGrid.reach (h : s.OnGrid period) (hle : s.now ≤ target) :
    (s.reach target).OnGrid period := by
  refine h.reach_induct (motive := fun s => (s.reach target).OnGrid period) ?_ ?_ hle
  · intro s h hle hlt
    rw [reach_of_lt hlt]
    have hdue := h.le
    exact ⟨h.rests, h.period_eq, h.dvd, hlt, by simp only; omega⟩
  · intro s h hdue ih
    rwa [reach_of_le h hdue]

theorem reach_reach {stop : Nat} (h : s.OnGrid period) (hle : s.now ≤ stop) (hstop : stop ≤ target) :
    (s.reach stop).reach target = s.reach target := by
  refine h.reach_induct (motive := fun s => (s.reach stop).reach target = s.reach target) ?_ ?_ hle
  · intro s h hle hlt
    rw [reach_of_lt hlt, reach_now]
  · intro s h hdue ih
    rw [reach_of_le h hdue, reach_of_le h (by omega), ih]

theorem advance_add (h : s.OnGrid period) (a b : Nat) :
    s.advance (a + b) = (s.advance a).advance b :=
  calc s.advance (a + b)
    _ = s.reach (s.now + a + b) := by rw [advance_eq, Nat.add_assoc]
    _ = (s.reach (s.now + a)).reach (s.now + a + b) :=
      (reach_reach h (Nat.le_add_right ..) (Nat.le_add_right ..)).symm
    _ = (s.advance a).advance b := rfl

end Reach

section Commands

variable {period : Nat} {s : Schedule}

theorem OnGrid.apply (h : s.OnGrid period) (c : Command) : (s.apply c).OnGrid period := by
  cases c with
  | mark signal id => exact ⟨⟨h.rests.idle, h.rests.flushes⟩, h.period_eq, h.dvd, h.lt, h.le⟩
  | flush =>
    rw [Schedule.apply, flush_eq h.rests]
    exact ⟨⟨h.rests.idle, h.rests.flushes⟩, h.period_eq, h.dvd, h.lt, h.le⟩
  | advance millis => exact h.reach (Nat.le_add_right ..)

theorem OnGrid.runAll (h : s.OnGrid period) (cs : List Command) : (s.runAll cs).OnGrid period := by
  induction cs generalizing s with
  | nil => exact h
  | cons c cs ih => exact ih (h.apply c)

theorem now_le_apply (h : s.OnGrid period) (c : Command) : s.now ≤ (s.apply c).now := by
  cases c with
  | mark signal id => exact Nat.le_refl _
  | flush => exact Nat.le_of_eq (by rw [Schedule.apply, flush_eq h.rests])
  | advance millis => exact Nat.le_add_right ..

theorem now_le_runAll (h : s.OnGrid period) (cs : List Command) : s.now ≤ (s.runAll cs).now := by
  induction cs generalizing s with
  | nil => exact Nat.le_refl _
  | cons c cs ih => exact (now_le_apply h c).trans (ih (h.apply c))

/-- Before the next tick, and without a flush on call, marks are only added. -/
theorem runAll_before_tick (h : s.OnGrid period) {cs : List Command} (hcs : .flush ∉ cs)
    (hlt : (s.runAll cs).now < s.ticker.due) :
    (s.runAll cs).directory = s.directory ∧ (s.runAll cs).ticker = s.ticker ∧
      ∀ signal, s.worker.pending.of signal ⊆ (s.runAll cs).worker.pending.of signal := by
  induction cs generalizing s with
  | nil => exact ⟨rfl, rfl, fun _ => List.Subset.refl _⟩
  | cons c cs ih =>
    rw [List.mem_cons, not_or] at hcs
    cases c with
    | mark signal id =>
      obtain ⟨hd, ht, hp⟩ := ih (h.apply (.mark signal id)) hcs.2 hlt
      refine ⟨hd, ht, fun other => List.Subset.trans ?_ (hp other)⟩
      intro x hx
      rw [Schedule.apply, mark_eq, Pending.of_mark]
      split
      · exact Ordered.mem_add.mpr (.inr hx)
      · exact hx
    | flush => exact absurd rfl hcs.1
    | advance millis =>
      have hwait : s.apply (.advance millis) = { s with now := s.now + millis } :=
        reach_of_lt (Nat.lt_of_le_of_lt (now_le_runAll (h.apply (.advance millis)) cs) hlt)
      have hrun : s.runAll (.advance millis :: cs) =
          { s with now := s.now + millis }.runAll cs := by
        rw [← hwait]
        rfl
      have hgrid := h.apply (.advance millis)
      rw [hwait] at hgrid
      rw [hrun] at hlt ⊢
      exact ih hgrid hcs.2 hlt

end Commands

/-- How a worker keeps to the multiples of a period. -/
structure KeepsGrid (period : Nat) (s : Schedule) : Prop where
  /-- It makes no difference whether time passes at once or in two pieces. -/
  pieces : ∀ before later a b,
    s.runAll (before ++ .advance (a + b) :: later) =
      s.runAll (before ++ .advance a :: .advance b :: later)
  /-- Before the first multiple after it was made, a mark is kept and nothing is written, unless a flush
  on call takes it. -/
  early : ∀ before signal id between target, Command.flush ∉ between →
    IsLeast {k | period ∣ k ∧ (s.runAll before).now < k} target →
    (s.runAll (before ++ .mark signal id :: between)).now < target →
      (s.runAll (before ++ .mark signal id :: between)).directory = (s.runAll before).directory ∧
      id ∈ (s.runAll (before ++ .mark signal id :: between)).worker.pending.of signal
  /-- When that multiple is reached, all that is marked by then is written with its moment, the mark
  among it, and nothing stays marked. -/
  onTime : ∀ before signal id between target, Command.flush ∉ between →
    IsLeast {k | period ∣ k ∧ (s.runAll before).now < k} target →
    ∀ s', s' = s.runAll (before ++ .mark signal id :: between) → s'.now < target →
      (s'.advance (target - s'.now)).directory =
        s'.directory.writeAll ((s'.worker.pending.batches ⟨target⟩).map Batch.write) ∧
      (s'.advance (target - s'.now)).worker.pending = {} ∧
      ∃ b ∈ s'.worker.pending.batches ⟨target⟩,
        b.field = signal.field ∧ id.value ∈ b.ids ∧ b.stamp = Timestamp.stored ⟨target⟩

/-- A worker at the moment zero, with nothing marked and its first tick a period away. -/
structure Fresh (period : Nat) (s : Schedule) : Prop where
  worker : s.worker = {}
  ticker : s.ticker = .start period
  now : s.now = 0

theorem fresh_start (seconds : Nat) (m : Memory) :
    Fresh (Timestamp.wait seconds) { start seconds with directory := m } :=
  ⟨rfl, rfl, rfl⟩

theorem mem_batches_of_mem {p : Pending} {signal : Signal} {id : EdgeId} (h : id ∈ p.of signal)
    (now : Timestamp) :
    ∃ b ∈ p.batches now, b.field = signal.field ∧ id.value ∈ b.ids ∧ b.stamp = now.stored := by
  have hids : id.value ∈ (p.of signal).map (·.value) := List.mem_map_of_mem h
  have hmem : (⟨signal.field, (p.of signal).map (·.value), now.stored⟩ : Batch) ∈
      p.writesOf now signal :=
    Pending.mem_batch.mpr ⟨List.ne_nil_of_mem h, rfl⟩
  rw [← Pending.filter_batches] at hmem
  exact ⟨_, (List.mem_filter.mp hmem).1, rfl, hids, rfl⟩

theorem OnGrid.keepsGrid {period : Nat} {s : Schedule} (h : s.OnGrid period) :
    s.KeepsGrid period := by
  -- a mark leaves the worker on the grid, with its tick at the least multiple to come
  have hmarked {before : List Command} {signal : Signal} {id : EdgeId} {between : List Command}
      {target : Nat} (hbetween : Command.flush ∉ between)
      (htarget : IsLeast {k | period ∣ k ∧ (s.runAll before).now < k} target)
      (hlt : (s.runAll (before ++ .mark signal id :: between)).now < target) :
      (s.runAll (before ++ .mark signal id :: between)).directory = (s.runAll before).directory ∧
      (s.runAll (before ++ .mark signal id :: between)).ticker.due = target ∧
      id ∈ (s.runAll (before ++ .mark signal id :: between)).worker.pending.of signal := by
    have hbefore := h.runAll before
    have hdue : (s.runAll before).ticker.due = target := hbefore.isLeast.unique htarget
    rw [runAll_append] at hlt ⊢
    obtain ⟨hd, ht, hp⟩ := runAll_before_tick (hbefore.apply (.mark signal id)) hbetween
      (hlt.trans_eq hdue.symm)
    refine ⟨hd, (congrArg Ticker.due ht).trans hdue, hp signal ?_⟩
    rw [Schedule.apply, mark_eq, Pending.of_mark, if_pos rfl]
    exact Ordered.mem_add.mpr (.inl rfl)
  refine ⟨?pieces, ?early, ?onTime⟩
  case pieces =>
    intro before later a b
    have hadd := advance_add (h.runAll before) a b
    calc s.runAll (before ++ .advance (a + b) :: later)
      _ = ((s.runAll before).advance (a + b)).runAll later := runAll_append ..
      _ = (((s.runAll before).advance a).advance b).runAll later := by rw [hadd]
      _ = (s.runAll before).runAll (.advance a :: .advance b :: later) := rfl
      _ = s.runAll (before ++ .advance a :: .advance b :: later) := (runAll_append ..).symm
  case early =>
    intro before signal id between target hbetween htarget hlt
    obtain ⟨hd, -, hp⟩ := hmarked hbetween htarget hlt
    exact ⟨hd, hp⟩
  case onTime =>
    rintro before signal id between target hbetween htarget s' rfl hlt
    obtain ⟨-, hdue, hp⟩ := hmarked hbetween htarget hlt
    have hgrid := h.runAll (before ++ .mark signal id :: between)
    generalize s.runAll (before ++ .mark signal id :: between) = s' at hlt hdue hp hgrid ⊢
    have htick : s'.advance (target - s'.now) = { s'.tick with now := target } := by
      have hreach : s'.advance (target - s'.now) = s'.reach target := by
        rw [advance_eq, Nat.add_sub_cancel' hlt.le]
      rw [hreach, reach_of_le hgrid hdue.le, reach_of_lt]
      have := hgrid.tick.lt
      rw [tick_eq hgrid.rests] at this ⊢
      exact hdue ▸ this
    rw [htick, tick_eq hgrid.rests, hdue]
    exact ⟨rfl, rfl, mem_batches_of_mem hp ⟨target⟩⟩

/-- A worker flushes on the grid of its interval. -/
theorem grid_kept {interval : Nat} (hi : 1000 ≤ interval) {s : Schedule} (hs : s.Fresh interval) :
    s.KeepsGrid interval := by
  apply OnGrid.keepsGrid
  obtain ⟨worker, ticker, now, directory⟩ := s
  obtain ⟨hw, ht, hn⟩ := hs
  cases hw
  cases ht
  cases hn
  exact
    { rests := ⟨rfl, rfl⟩
      period_eq := rfl
      dvd := Nat.dvd_refl interval
      lt := Nat.lt_of_lt_of_le Nat.zero_lt_one (Nat.le_trans (by decide) hi)
      le := Nat.le_add_left interval 0 }

/-- A minute. -/
theorem grid_kept_minute :
    1000 ≤ Timestamp.wait 60 ∧ Fresh (Timestamp.wait 60) (start 60) ∧
      KeepsGrid (Timestamp.wait 60) (start 60) :=
  have hi : 1000 ≤ Timestamp.wait 60 := by decide
  ⟨hi, fresh_start 60 {}, grid_kept hi (fresh_start 60 {})⟩

end Schedule

end EdgeFleet.WriteBack
