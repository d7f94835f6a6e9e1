import EdgeFleet.Directory.Memory
import EdgeFleet.WriteBack.Ticker
import EdgeFleet.WriteBack.Worker

namespace EdgeFleet.WriteBack

/-- A worker, its clock and the directory it writes to, where writes take no time. -/
structure Schedule where
  worker : Worker := {}
  ticker : Ticker
  now : Nat := 0
  directory : Directory.Memory := {}

namespace Schedule

/-- The worker of an interval in seconds, at the moment zero. -/
def start (seconds : Nat) : Schedule where
  ticker := .start (Timestamp.wait seconds)

def time (s : Schedule) : Timestamp := ⟨s.now⟩

/-- Carries out an action; a write is followed by its end. -/
def perform (s : Schedule) : Worker.Action → Schedule × List Worker.Event
  | .ended _ => (s, [])
  | .write owner b =>
    ({ s with directory := (s.directory.write b.ids b.field (.text b.stamp)).1 },
      [.written owner])

/-- The worker after an event, with what follows from it in at most `fuel` steps. -/
def run : Nat → Schedule → List Worker.Event → Schedule
  | 0, s, _ => s
  | _ + 1, s, [] => s
  | fuel + 1, s, e :: rest =>
    let (worker, actions) := s.worker.step e
    let (s, followUps) := actions.foldl (fun (s, events) a =>
        let (s, more) := s.perform a
        (s, events ++ more)) ({ s with worker }, [])
    run fuel s (followUps ++ rest)

/-- Marks an edge. -/
def mark (s : Schedule) (signal : Signal) (id : EdgeId) : Schedule :=
  s.run 1 [.mark signal id]

/-- Writes all marks now: the drain and at most two writes. -/
def flush (s : Schedule) : Schedule :=
  s.run 3 [.flush 0 s.time]

/-- Closes the worker and waits for its last flush. -/
def dispose (s : Schedule) : Schedule :=
  s.run 4 [.dispose 0, .close s.time]

/-- Lets the worker tick at the moment its ticker is due. -/
def tick (s : Schedule) : Schedule :=
  let s := { s with now := s.ticker.due, ticker := s.ticker.fire s.ticker.due }
  s.run 3 [.tick s.time]

/-- How often the ticker is due up to a moment. -/
def ticksUntil (s : Schedule) (target : Nat) : Nat :=
  if s.ticker.due ≤ target then (target - s.ticker.due) / s.ticker.period + 1 else 0

/-- Lets the worker tick several times. -/
def ticks : Nat → Schedule → Schedule
  | 0, s => s
  | n + 1, s => ticks n s.tick

/-- Lets time pass, with every tick on the way. -/
def advance (s : Schedule) (millis : Nat) : Schedule :=
  let target := s.now + millis
  { ticks (s.ticksUntil target) s with now := target }

end Schedule

end EdgeFleet.WriteBack
