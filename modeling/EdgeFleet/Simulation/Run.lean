import EdgeFleet.Simulation.State

namespace EdgeFleet.Simulation

/-- The outcome of an edge that may be absent. -/
def edgeOutcome (e : Option Edge) : Outcome :=
  match e with
  | some e => .edge e
  | none => .nothing

/-- The outcome of a user that may be absent. -/
def userOutcome (u : Option User) : Outcome :=
  match u with
  | some u => .user u
  | none => .nothing

/-- Keeps an instance under a name, if there are both. -/
def keepEdge (s : Simulation) (keep : Option String) (ref : Option EdgeRef) : Simulation :=
  match keep, ref with
  | some name, some ref => { s with edges := Ordered.insert name ref s.edges }
  | _, _ => s

def keepUser (s : Simulation) (keep : Option String) (ref : AccountRef) : Simulation :=
  match keep with
  | some name => { s with users := Ordered.insert name ref s.users }
  | none => s

/-- The response to a question that the service has answered. -/
def respond (s : Simulation) (question : Http.Question) (answer : Service.Answer) :
    Http.Response :=
  match question, answer with
  | .edge id, .edge ref => Http.edgeResponse id (ref.bind s.edge?)
  | .user id, .user ref => Http.userResponse id (ref.bind s.user?)
  | .login _, .login (.error e) => Http.loginResponse (.error e)
  | .login _, .login (.ok ref) =>
    match s.user? ref with
    | some u => Http.loginResponse (.ok u)
    | none => { status := 500 }
  | .resolve _, .edgeIds ids => Http.resolveResponse ids
  | _, _ => { status := 500 }

/-- What an answer shows, and the run with what it keeps. -/
def present (s : Simulation) (shown : Shown) (answer : Service.Answer) : Simulation × Outcome :=
  match shown, answer with
  | .edge keep, .edge ref => (s.keepEdge keep ref, edgeOutcome (ref.bind s.edge?))
  | .login _, .login (.error e) => (s, .denied e)
  | .login keep, .login (.ok ref) => (s.keepUser keep ref, userOutcome (s.user? ref))
  | .edgeIds, .edgeIds ids => (s, .edgeIds ids)
  | .updated ref, _ => (s, edgeOutcome (s.edge? ref))
  | .response question headOnly, answer =>
    let r := s.respond question answer
    (s, .response (if headOnly then r.headOnly else r))
  | _, _ => (s, .done)

def endCommand (s : Simulation) (n : Nat) (outcome : Outcome) : Simulation :=
  { s with
    waiting := s.waiting.filter (·.command ≠ n)
    ended := s.ended ++ [(n, outcome)] }

/-- Ends the command of a call that was answered. Refreshes in the background belong to none. -/
def finishCall (s : Simulation) (t : Service.Ticket) (answer : Service.Answer) : Simulation :=
  match t with
  | .warmUp _ => s
  | .call n =>
    match s.waiting.find? (·.command = n) with
    | none => s
    | some w =>
      let (s, outcome) := s.present w.shown answer
      s.endCommand n outcome

def writeNow (s : Simulation) (ids : List UInt32) (field : Directory.Field) (value : Json) :
    Simulation :=
  let (directory, result) :=
    if s.refusing then (s.directory, .ok false) else s.directory.write ids field value
  { s with directory, log := s.log ++ [.write ids field value result] }

/-- Carries out a call to the directory, logs it and gives the event that it leads to. -/
def callDirectory (s : Simulation) : DirectoryCall → Simulation × Service.Event
  | .search t criteria =>
    let (directory, result) := s.directory.search criteria
    ({ s with directory, log := s.log ++ [.search criteria result] }, .searched t result)
  | .read t id =>
    let (directory, found) := s.directory.read id.value EdgeRecord.fields
    let result := found.map fun r => (Ordered.get? id.value s.replies).getD r
    ({ s with directory, log := s.log ++ [.read id result] }, .record t result (s.isOnline id))
  | .write t id field value => (s.writeNow [id.value] field value, .stored t)
  | .writeBatch owner b =>
    (s.writeNow b.ids b.field (.text b.stamp), .worker (.written owner))

def next (s : Simulation) (e : Service.Event) : Simulation :=
  { s with turns := .event e :: s.turns }

def later (s : Simulation) (t : Turn) : Simulation :=
  { s with turns := s.turns ++ [t] }

/-- Makes a call to the directory; one of a kind that is being held has to wait. -/
def makeCall (s : Simulation) (c : DirectoryCall) : Simulation :=
  if s.holding.contains c.kind then { s with held := s.held ++ [c] }
  else
    let (s, e) := s.callDirectory c
    s.next e

def act (s : Simulation) : Service.Action → Simulation
  | .confirm t session =>
    let (sessions, result) := s.sessions.authenticate session
    { s with sessions }.next (.confirmed t result)
  | .search t criteria => s.makeCall (.search t criteria)
  | .read t id => s.makeCall (.read t id)
  | .write t id field value => s.makeCall (.write t id field value)
  | .writeBatch owner batch => s.makeCall (.writeBatch owner batch)
  | .queue t => s.later (.event (.turn t))
  | .finish t answer => s.finishCall t answer

/-- Whether the worker looks at its clock after the event. -/
def endsFlush : Service.Event → Bool
  | .worker (.tick _) | .worker (.written .background) => true
  | _ => false

def handle (s : Simulation) (e : Service.Event) : Simulation :=
  let (service, actions) := s.service.step e
  let turns := if endsFlush e then .lookAtClock :: s.turns else s.turns
  actions.foldl act { s with service, turns }

/-- The worker's turn: closed, it flushes for the last time; otherwise it flushes if a tick is
due. -/
def lookAtClock (s : Simulation) : Simulation :=
  if s.service.worker.background = .idle then
    if s.service.worker.closed then s.handle (.worker (.close s.time))
    else if s.ticker.due ≤ s.now then
      { s with ticker := s.ticker.fire s.now }.handle (.worker (.tick s.time))
    else s
  else s

/-- Takes the turns in order until there is none, at most `fuel` of them. -/
def settle : Nat → Simulation → Simulation
  | 0, s => s
  | fuel + 1, s =>
    match s.turns with
    | [] => s
    | .event e :: turns => settle fuel ({ s with turns }.handle e)
    | .lookAtClock :: turns => settle fuel ({ s with turns }.lookAtClock)

/-- The grants that a task has still to resolve. -/
def openGrants : Service.Task → Nat
  | .reading _ (.login l) | .activating _ (.login l) => l.remaining.length + 1
  | _ => 1

/-- A bound on the turns until nothing can go on: a grant and an edge found by a search take at most
four of them, and a response holds fewer grants than characters. -/
def budget (s : Simulation) : Nat :=
  let grants := s.service.tasks.foldl (fun n (_, t) => n + openGrants t) 0
  let responses := s.sessions.responses.foldl (fun n (_, body) => n + body.length) 0
  16 + 8 * (s.turns.length + grants + responses + s.directory.records.length)

/-- Lets every task go on until it waits or ends. -/
def settleAll (s : Simulation) : Simulation := settle s.budget s

/-- Gives a command up that took too long. -/
def expire (s : Simulation) (n : Nat) : Simulation :=
  { s with held := s.held.filter (!·.isFor n) }.handle (.drop n) |>.endCommand n
    (.response Http.timeoutResponse)

/-- The next moment up to `target` at which a tick or a deadline is due. -/
def nextDue? (s : Simulation) (target : Nat) : Option Nat :=
  -- a worker that is writing sees its ticker later
  let tick := if s.service.worker.background = .idle then [s.ticker.due] else []
  ((tick ++ s.waiting.filterMap (·.deadline)).filter (· ≤ target)).min?

def reach (s : Simulation) (moment : Nat) : Simulation :=
  -- the worker goes first
  let s := ({ s with now := moment }.later .lookAtClock).settleAll
  let late := s.waiting.filter fun w => w.deadline.any (· ≤ moment)
  late.foldl (fun s w => s.expire w.command) s

/-- Lets time pass up to `target`, with at most `fuel` stops. -/
def advanceTo (target : Nat) : Nat → Simulation → Simulation
  | 0, s => { s with now := target }
  | fuel + 1, s =>
    match s.nextDue? target with
    | none => { s with now := target }
    | some moment => advanceTo target fuel (s.reach (max moment s.now))

/-- Lets time pass. Each stop is a tick, and ticks are a period apart, or the end of a command. -/
def advance (s : Simulation) (millis : Nat) : Simulation :=
  s.advanceTo (s.now + millis) (millis / s.ticker.period + s.waiting.length + 2)

def expect (s : Simulation) (w : Waiting) : Simulation :=
  { s with waiting := s.waiting ++ [w] }

/-- Starts a call to the service for a command. -/
def call (s : Simulation) (n : Nat) (shown : Shown) (e : Service.Event) : Simulation :=
  ((s.expect ⟨n, shown, none⟩).later (.event e)).settleAll

/-- Starts a request. One that is malformed is refused; one without time is given up at once. -/
def request (s : Simulation) (n : Nat) (r : Http.Request) : Simulation :=
  match r.path? with
  | none => s.endCommand n .badRequest
  | some path =>
    if s.requestTimeout = 0 then s.endCommand n (.response Http.timeoutResponse)
    else
      let task := r.task path
      match task.question with
      | .error response =>
        s.endCommand n (.response (if task.headOnly then response.headOnly else response))
      | .ok question =>
        let event : Service.Event := match question with
          | .edge id => .lookUp n id
          | .user id => .findUser n id
          | .login session => .logIn n session
          | .resolve apikey => .resolve n apikey
        let w : Waiting := ⟨n, .response question task.headOnly, some (s.now + s.requestTimeout)⟩
        ((s.expect w).later (.event event)).settleAll

/-- Updates the instance that is kept under a name. -/
def update (s : Simulation) (n : Nat) (edge : String) (u : Edge.Update) : Simulation :=
  match s.kept? edge with
  | none => s.endCommand n .noSuchEdge
  | some ref => s.call n (.updated ref) (.update n ref u)

/-- The outcome of a comparison of things that may be unknown. -/
def compareOutcome (a b : Option Nat) : Outcome :=
  match a, b with
  | some a, some b => .flag (a = b)
  | _, _ => .nothing

def release (s : Simulation) (n index : Nat) : Simulation :=
  match s.held[index]? with
  | none => s.endCommand n .nothing
  | some c =>
    let (s, e) := { s with held := s.held.eraseIdx index }.callDirectory c
    (s.next e).settleAll.endCommand n (.text c.label)

def set (new : Option Bool) (old : Bool) : Bool := new.getD old

def perform (s : Simulation) (n : Nat) : Command → Simulation
  | .lookUp id keep => s.call n (.edge keep) (.lookUp n id)
  | .refresh id keep => s.call n (.edge keep) (.refresh n id)
  | .logIn session keep => s.call n (.login keep) (.logIn n session)
  | .resolve apikey => s.call n .edgeIds (.resolve n apikey)
  | .update edge u => s.update n edge u
  | .mark edge .message => s.update n edge (.message s.time)
  | .mark edge .data => s.update n edge (.data s.time)
  | .snapshot edge => s.endCommand n (edgeOutcome ((s.kept? edge).bind s.edge?))
  | .sameEdge a b => s.endCommand n (compareOutcome (s.kept? a) (s.kept? b))
  | .sameUser a b => s.endCommand n (compareOutcome (s.keptUser? a) (s.keptUser? b))
  | .user name => s.endCommand n (userOutcome ((s.keptUser? name).bind s.user?))
  | .findUser id =>
    let (cache, found) := s.service.cache.getUser id
    { s with service := { s.service with cache } }.endCommand n (userOutcome (found.bind s.user?))
  | .containsEdge id => s.endCommand n (.flag (s.service.cache.containsEdge id))
  | .describe => s.endCommand n (.text s.service.describe)
  | .flush => s.call n .done (.worker (.flush n s.time))
  | .dispose =>
    let s := (s.expect ⟨n, .done, none⟩).later (.event (.worker (.dispose n)))
    (s.later .lookAtClock).settleAll
  | .device id record => { s with directory := s.directory.insert id record }.endCommand n .nothing
  | .session session body => { s with sessions := s.sessions.respond session body }.endCommand n .nothing
  | .reply id record => { s with replies := Ordered.insert id record s.replies }.endCommand n .nothing
  | .fail search reads writes refuse =>
    let directory :=
      { s.directory with
        failSearch := set search s.directory.failSearch
        failReads := set reads s.directory.failReads
        failWrites := set writes s.directory.failWrites }
    { s with directory, refusing := set refuse s.refusing }.endCommand n .nothing
  | .presence id online =>
    let edges := s.online.map fun ids =>
      if online then Ordered.add id ids else ids.filter (· ≠ id)
    { s with online := edges }.endCommand n .nothing
  | .hold kinds => { s with holding := kinds }.endCommand n .nothing
  | .release index => s.release n index
  | .advance millis => (s.advance millis).endCommand n .nothing
  | .request r => s.request n r

/-- What a command showed: its outcome unless it still waits, the earlier commands that ended, and
the calls to the directory. -/
structure Report where
  outcome : Option Outcome
  finished : List (Nat × Outcome)
  log : List LogEntry

/-- Carries out the command of a number and reports what it showed. -/
def run (s : Simulation) (n : Nat) (c : Command) : Simulation × Report :=
  let s := { s with log := [], ended := [] }.perform n c
  (s,
    { outcome := (s.ended.find? (·.1 = n)).map (·.2)
      finished := s.ended.filter (·.1 ≠ n)
      log := s.log })

end EdgeFleet.Simulation
