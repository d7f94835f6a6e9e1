import EdgeFleet.Directory.Memory
import EdgeFleet.Http.Api
import EdgeFleet.Service.Step
import EdgeFleet.Session.Authenticator

/-! A run of the service over a directory in memory, one task at a time and with a clock of its own. Calls to
the directory can be held and let go one by one, so every interleaving can be brought about. -/
namespace EdgeFleet

namespace Simulation

open Directory (Criterion Field Record)

/-- A kind of call to the directory. -/
inductive CallKind
  | search
  | read
  | write
  deriving DecidableEq

/-- A call to the directory under way. -/
inductive DirectoryCall
  | search (t : Service.Ticket) (criteria : List Criterion)
  | read (t : Service.Ticket) (id : EdgeId)
  | write (t : Service.Ticket) (id : EdgeId) (field : Field) (value : Json)
  | writeBatch (owner : WriteBack.Owner) (batch : WriteBack.Batch)

namespace DirectoryCall

def kind : DirectoryCall → CallKind
  | .search .. => .search
  | .read .. => .read
  | .write .. | .writeBatch .. => .write

/-- What the call is called while it is held. -/
def label : DirectoryCall → String
  | .search _ criteria => "search " ++ (Json.array (criteria.map (·.toJson))).compact
  | .read _ id => "read " ++ id.render
  | .write _ _ field _ => "write " ++ field.key
  | .writeBatch _ batch => "write " ++ batch.field.key

/-- Whether the call is made for a call to the service. -/
def isFor (n : Nat) : DirectoryCall → Bool
  | .search t _ | .read t _ | .write t .. => t = .call n
  | .writeBatch owner _ => owner = .call n

end DirectoryCall

/-- A call to the directory that has ended. -/
inductive LogEntry
  | search (criteria : List Criterion) (result : Except DirectoryError (List UInt32))
  | read (id : EdgeId) (result : Except DirectoryError Record)
  | write (ids : List UInt32) (field : Field) (value : Json) (result : Except DirectoryError Bool)

/-- What a command comes to. -/
inductive Outcome
  | nothing
  | done
  | noSuchEdge
  | flag (b : Bool)
  | text (s : String)
  | edge (e : Edge)
  | user (u : User)
  | denied (e : ServiceError)
  | edgeIds (ids : List EdgeId)
  | response (r : Http.Response)
  | badRequest

/-- What to show of an answer, and the name under which to keep an instance. -/
inductive Shown
  | edge (keep : Option String)
  | login (keep : Option String)
  | edgeIds
  | updated (ref : EdgeRef)
  | done
  | response (question : Http.Question) (headOnly : Bool)

/-- A command that has not come to an end, and when it is given up. -/
structure Waiting where
  command : Nat
  shown : Shown
  deadline : Option Nat

/-- What is to be done next: an event of the service, or the worker looks at its clock. -/
inductive Turn
  | event (e : Service.Event)
  | lookAtClock

/-- What can be done with the service and its surroundings. -/
inductive Command
  | lookUp (id : EdgeId) (keep : Option String)
  | refresh (id : EdgeId) (keep : Option String)
  | logIn (session keep : Option String)
  | resolve (apikey : String)
  | update (edge : String) (u : Edge.Update)
  | mark (edge : String) (signal : WriteBack.Signal)
  | snapshot (edge : String)
  | sameEdge (a b : String)
  | sameUser (a b : String)
  | user (name : String)
  | findUser (id : UserId)
  | containsEdge (id : EdgeId)
  | describe
  | flush
  | dispose
  | device (id : UInt32) (record : Record)
  | session (session body : String)
  | reply (id : UInt32) (record : Record)
  | fail (search reads writes refuse : Option Bool)
  | presence (id : EdgeId) (online : Bool)
  | hold (kinds : List CallKind)
  | release (index : Nat)
  | advance (millis : Nat)
  | request (r : Http.Request)

end Simulation

/-- The state of a run. The last two fields belong to the command under way: the calls to the
directory and the commands that ended. -/
structure Simulation where
  service : Service
  ticker : WriteBack.Ticker
  requestTimeout : Nat
  now : Nat := 0
  directory : Directory.Memory := {}
  sessions : Session.Memory := {}
  online : Option (List EdgeId) := none
  replies : List (UInt32 × Directory.Record) := []
  refusing : Bool := false
  holding : List Simulation.CallKind := []
  held : List Simulation.DirectoryCall := []
  turns : List Simulation.Turn := []
  waiting : List Simulation.Waiting := []
  edges : List (String × EdgeRef) := []
  users : List (String × AccountRef) := []
  log : List Simulation.LogEntry := []
  ended : List (Nat × Simulation.Outcome) := []

namespace Simulation

def start (s : Settings) (online : Option (List EdgeId)) (timeoutSeconds : Nat) : Simulation where
  service := .start s
  ticker := .start (Timestamp.wait s.writeInterval)
  requestTimeout := Timestamp.wait timeoutSeconds
  online

def time (s : Simulation) : Timestamp := ⟨s.now⟩

def isOnline (s : Simulation) (id : EdgeId) : Bool :=
  (s.online.getD []).contains id

def edge? (s : Simulation) (ref : EdgeRef) : Option Edge :=
  (s.service.instance? ref).map (·.edge)

def user? (s : Simulation) (ref : AccountRef) : Option User :=
  s.service.cache.account? ref

def kept? (s : Simulation) (name : String) : Option EdgeRef := Ordered.get? name s.edges

def keptUser? (s : Simulation) (name : String) : Option AccountRef := Ordered.get? name s.users

end Simulation

end EdgeFleet
