import EdgeFleet.Cache.Basic
import EdgeFleet.ServiceError
import EdgeFleet.Session.Info
import EdgeFleet.Settings
import EdgeFleet.WriteBack.Notifier

/-! The state of the service: the edge instances made so far, the cache, the generations, the worker and the
calls under way. A call runs until it needs an answer from outside; then it is a task, and what happens
next is an event. -/
namespace EdgeFleet

/-- The number of an edge instance, in the order in which they were made. -/
abbrev EdgeRef := Nat

/-- An instance of an edge and the generation it writes for. -/
structure Instance where
  edge : Edge
  generation : Nat

namespace Service

/-- What identifies a task: a call from outside, or a refresh in the background. -/
inductive Ticket
  | call (n : Nat)
  | warmUp (n : Nat)
  deriving DecidableEq

/-- A login that resolves its grants one by one: those that are granted, the one under way and those
that remain. -/
structure Login where
  user : UserInfo
  granted : List (EdgeId × Role)
  current : DeviceGrant
  remaining : List DeviceGrant

/-- What an edge is being read for. -/
inductive Purpose
  | answer
  | warmUp
  | login (l : Login)

/-- What a task waits for: the confirmation of a session, the result of a search, its first turn,
the record of an edge, or the end of a write. -/
inductive Task
  | confirming
  | searching
  | queued (id : EdgeId)
  | reading (id : EdgeId) (purpose : Purpose)
  | activating (ref : EdgeRef) (purpose : Purpose)
  | storing

/-- What happens to the service: a call starts, which its caller numbers, or is given up; something
that a task waits for has come; or it concerns the worker. -/
inductive Event
  | lookUp (n : Nat) (id : EdgeId)
  | refresh (n : Nat) (id : EdgeId)
  | logIn (n : Nat) (session : Option String)
  | resolve (n : Nat) (apikey : String)
  | findUser (n : Nat) (id : UserId)
  | update (n : Nat) (ref : EdgeRef) (u : Edge.Update)
  | drop (n : Nat)
  | confirmed (t : Ticket) (result : Except AuthError SessionInfo)
  | searched (t : Ticket) (result : Except DirectoryError (List UInt32))
  | turn (t : Ticket)
  | record (t : Ticket) (result : Except DirectoryError Directory.Record) (online : Bool)
  | stored (t : Ticket)
  | worker (e : WriteBack.Worker.Event)

/-- What a call is answered with. -/
inductive Answer
  | edge (ref : Option EdgeRef)
  | login (result : Except ServiceError AccountRef)
  | edgeIds (ids : List EdgeId)
  | user (ref : Option AccountRef)
  | done

/-- What the service does: it asks for something from outside, it queues a refresh in the
background, or it has finished a task. -/
inductive Action
  | confirm (t : Ticket) (session : String)
  | search (t : Ticket) (criteria : List Directory.Criterion)
  | read (t : Ticket) (id : EdgeId)
  | write (t : Ticket) (id : EdgeId) (field : Directory.Field) (value : Json)
  | writeBatch (owner : WriteBack.Owner) (batch : WriteBack.Batch)
  | queue (t : Ticket)
  | finish (t : Ticket) (answer : Answer)

end Service

/-- The state of the service. `permits` counts the refreshes that may start in the background,
`warmUps` those that have started so far. -/
structure Service where
  instances : List Instance := []
  cache : Cache EdgeRef
  generations : Generations := {}
  worker : WriteBack.Worker := {}
  permits : Nat
  warmUps : Nat := 0
  tasks : List (Service.Ticket × Service.Task) := []

namespace Service

def start (s : Settings) : Service where
  cache := .empty s.edgeCapacity s.userCapacity
  permits := s.refreshPermits

def task? (s : Service) (t : Ticket) : Option Task :=
  (s.tasks.find? (·.1 = t)).map (·.2)

/-- The service without the task of a ticket. -/
def close (s : Service) (t : Ticket) : Service :=
  { s with tasks := s.tasks.filter (·.1 ≠ t) }

/-- The service with a task in place of any other of its ticket. -/
def await (s : Service) (t : Ticket) (task : Task) : Service :=
  { s with tasks := (t, task) :: s.tasks.filter (·.1 ≠ t) }

theorem task?_close (s : Service) (t other : Ticket) :
    (s.close t).task? other = if other = t then none else s.task? other := by
  simp only [task?, close, List.find?_filter]
  by_cases h : other = t
  · simp [h]
  · rw [if_neg h]
    congr 2
    funext p
    by_cases hp : p.1 = other
    · simp [hp, h]
    · simp [hp]

theorem task?_of_close {s : Service} {t other : Ticket} {task : Task}
    (h : (s.close t).task? other = some task) : s.task? other = some task := by
  rw [task?_close] at h
  split at h
  · cases h
  · exact h

theorem task?_await (s : Service) (t other : Ticket) (task : Task) :
    (s.await t task).task? other = if other = t then some task else s.task? other := by
  by_cases h : other = t
  · simp [task?, await, h]
  · have hc := task?_close s t other
    have ht : ¬ t = other := fun e => h e.symm
    simp only [task?, close, if_neg h] at hc
    simp only [task?, await, List.find?_cons, ht, decide_false, if_neg h]
    exact hc

theorem task?_close_self (s : Service) (t : Ticket) : (s.close t).task? t = none := by
  rw [task?_close, if_pos rfl]

theorem task?_close_of_ne (s : Service) {t other : Ticket} (h : other ≠ t) :
    (s.close t).task? other = s.task? other := by
  rw [task?_close, if_neg h]

theorem task?_await_self (s : Service) (t : Ticket) (task : Task) :
    (s.await t task).task? t = some task := by
  rw [task?_await, if_pos rfl]

theorem task?_await_of_ne (s : Service) {t other : Ticket} (h : other ≠ t) (task : Task) :
    (s.await t task).task? other = s.task? other := by
  rw [task?_await, if_neg h]

def instance? (s : Service) (ref : EdgeRef) : Option Instance := s.instances[ref]?

/-- Whether the instance has the current generation of its edge. -/
def isCurrent (s : Service) (i : Instance) : Bool :=
  s.generations.isCurrent i.edge.id i.generation

def describe (s : Service) : String :=
  Text.describeRecord "DirectoryMetadataService"
    [("cache", s.cache.describe), ("worker", s.worker.describe)] true

end Service

end EdgeFleet
