import EdgeFleet.WriteBack.Pending

/-! The worker that writes marks to the directory: at each tick, when asked to, and once more when it is
closed. It goes from one event to the next and issues one write at a time for each flush. -/
namespace EdgeFleet.WriteBack

/-- Who drained the marks: the worker on its own, or a call. -/
inductive Owner
  | background
  | call (n : Nat)
  deriving DecidableEq

/-- What the worker does on its own. The batches are those that are not written yet; the first one
is being written. -/
inductive Background
  | idle
  | flushing (batches : List Batch)
  | closing (batches : List Batch)
  | stopped
  deriving DecidableEq

/-- The state of the worker. -/
structure Worker where
  pending : Pending := {}
  background : Background := .idle
  flushes : List (Nat × List Batch) := []
  closed : Bool := false
  waiting : Option Nat := none

namespace Worker

/-- What happens to the worker. -/
inductive Event
  | mark (signal : Signal) (id : EdgeId)
  | flush (call : Nat) (now : Timestamp)
  | tick (now : Timestamp)
  | dispose (call : Nat)
  | close (now : Timestamp)
  | written (owner : Owner)

/-- What the worker does about it: it writes a batch, or a call has ended. -/
inductive Action
  | write (owner : Owner) (batch : Batch)
  | ended (call : Nat)
  deriving DecidableEq

/-- The worker without marks. -/
def drained (w : Worker) : Worker := { w with pending := {} }

/-- The end of the call that waits for the worker, if one does. -/
def endWaiting (w : Worker) : List Action :=
  match w.waiting with
  | none => []
  | some call => [.ended call]

def goOnFlush (w : Worker) (call : Nat) (batches : List Batch) : Worker × List Action :=
  let others := w.flushes.filter (·.1 ≠ call)
  match batches with
  | [] => ({ w with flushes := others }, [.ended call])
  | b :: rest => ({ w with flushes := (call, b :: rest) :: others }, [.write (.call call) b])

def goOnTick (w : Worker) (batches : List Batch) : Worker × List Action :=
  match batches with
  | [] => ({ w with background := .idle }, [])
  | b :: rest => ({ w with background := .flushing (b :: rest) }, [.write .background b])

/-- Goes on with the last flush, after which the worker stops. -/
def goOnClose (w : Worker) (batches : List Batch) : Worker × List Action :=
  match batches with
  | [] => ({ w with background := .stopped }, w.endWaiting)
  | b :: rest => ({ w with background := .closing (b :: rest) }, [.write .background b])

/-- The worker after an event. A tick and the closing reach it only while it is idle. -/
def step (w : Worker) : Event → Worker × List Action
  | .mark signal id => ({ w with pending := w.pending.mark signal id }, [])
  | .flush call now => w.drained.goOnFlush call (w.pending.batches now)
  | .tick now =>
    if w.background = .idle then w.drained.goOnTick (w.pending.batches now) else (w, [])
  | .dispose call =>
    if w.closed then (w, [.ended call])
    else ({ w with closed := true, waiting := some call }, [])
  | .close now =>
    if w.background = .idle ∧ w.closed then w.drained.goOnClose (w.pending.batches now)
    else (w, [])
  | .written .background =>
    match w.background with
    | .flushing (_ :: rest) => w.goOnTick rest
    | .closing (_ :: rest) => w.goOnClose rest
    | _ => (w, [])
  | .written (.call call) =>
    match w.flushes.find? (·.1 = call) with
    | some (_, _ :: rest) => w.goOnFlush call rest
    | _ => (w, [])

def describe (w : Worker) : String :=
  Text.describeRecord "WriteWorker"
    [("pending_last_message", Text.decimal w.pending.messages.length),
      ("pending_last_update", Text.decimal w.pending.data.length)] true

theorem pending_goOnFlush (w : Worker) (call : Nat) (batches : List Batch) :
    (w.goOnFlush call batches).1.pending = w.pending := by
  cases batches <;> rfl

theorem pending_goOnTick (w : Worker) (batches : List Batch) :
    (w.goOnTick batches).1.pending = w.pending := by
  cases batches <;> rfl

theorem pending_goOnClose (w : Worker) (batches : List Batch) :
    (w.goOnClose batches).1.pending = w.pending := by
  cases batches <;> rfl

theorem pending_step_flush (w : Worker) (call : Nat) (now : Timestamp) :
    (w.step (.flush call now)).1.pending = {} :=
  pending_goOnFlush _ _ _

theorem pending_step_tick {w : Worker} (h : w.background = .idle) (now : Timestamp) :
    (w.step (.tick now)).1.pending = {} := by
  simp only [step, h, if_true, pending_goOnTick]
  rfl

end Worker

end EdgeFleet.WriteBack
