import EdgeFleet.Service.State

namespace EdgeFleet.Service

def finish (s : Service) (t : Ticket) (answer : Answer) : Service × List Action :=
  (s.close t, [.finish t answer])

def startReading (s : Service) (t : Ticket) (id : EdgeId) (purpose : Purpose) :
    Service × List Action :=
  (s.await t (.reading id purpose), [.read t id])

/-- Stores the user of a login whose grants are all resolved. -/
def commit (s : Service) (t : Ticket) (user : UserInfo) (granted : List (EdgeId × Role)) :
    Service × List Action :=
  let (cache, ref) := s.cache.upsertUser user.id user.name granted
  { s with cache }.finish t (.login (.ok ref))

/-- Puts an edge that a login found into the cache, unless there is one. -/
def keepFound (s : Service) (id : EdgeId) : Option EdgeRef → Service
  | none => s
  | some ref => { s with cache := (s.cache.putEdgeIfAbsent id ref).1 }

/-- Resolves the grants of a login in order. One whose edge is not at hand waits for its record; it
is granted in any case. -/
def resolveGrants (s : Service) (t : Ticket) (user : UserInfo) (granted : List (EdgeId × Role)) :
    List DeviceGrant → Service × List Action
  | [] => s.commit t user granted
  | g :: rest =>
    match s.cache.getEdge g.id with
    | (cache, some ref) =>
      -- at hand, and used once more when it is kept
      ({ s with cache }.keepFound g.id (some ref)).resolveGrants t user
        (granted ++ [(g.id, Role.ofText g.role)]) rest
    | (cache, none) =>
      { s with cache }.startReading t g.id
        (.login { user, granted, current := g, remaining := rest })

/-- Goes on with what an edge was read for; `found` is nothing if the reading failed. -/
def resume (s : Service) (t : Ticket) (found : Option EdgeRef) :
    Purpose → Service × List Action
  | .answer => s.finish t (.edge found)
  | .warmUp => { s with permits := s.permits + 1 }.finish t .done
  | .login l =>
    (s.keepFound l.current.id found).resolveGrants t l.user
      (l.granted ++ [(l.current.id, Role.ofText l.current.role)]) l.remaining

/-- Puts an instance into the cache if its generation is current, and goes on. -/
def install (s : Service) (t : Ticket) (ref : EdgeRef) (purpose : Purpose) :
    Service × List Action :=
  match s.instance? ref with
  | none => s.resume t none purpose
  | some i =>
    -- a later reading may have begun in the meantime
    let (cache, _) := s.generations.installIfCurrent i.edge.id i.generation
      (fun c : Cache EdgeRef => c.putEdge i.edge.id ref) s.cache
    { s with cache }.resume t (some ref) purpose

/-- Makes an instance of the next generation from a record. If the edge is seen online for the first
time, that is stored before the instance is put into the cache. -/
def buildInstance (s : Service) (t : Ticket) (record : EdgeRecord) (online : Bool)
    (purpose : Purpose) : Service × List Action :=
  -- from here on instances of earlier generations write no more
  let (generations, generation) := s.generations.advance record.id
  let (edge, notice) := (Edge.ofRecord record).update (.online online)
  let ref := s.instances.length
  let made : Instance := { edge, generation }
  let s := { s with generations, instances := s.instances ++ [made] }
  match notice.bind fun n =>
      WriteBack.immediate? generations edge.id generation (WriteBack.effect n) with
  | some (field, value) =>
    (s.await t (.activating ref purpose), [.write t edge.id field value])
  | none => s.install t ref purpose

/-- Goes on after a reading. A failed one and a record that is no edge or another one change
nothing. -/
def recordRead (s : Service) (t : Ticket) (id : EdgeId) (purpose : Purpose)
    (result : Except DirectoryError Directory.Record) (online : Bool) : Service × List Action :=
  match result with
  | .error _ => s.resume t none purpose
  | .ok record =>
    match EdgeRecord.decodeFor id record with
    | .error _ => s.resume t none purpose
    | .ok record => s.buildInstance t record online purpose

/-- Looks an edge up and reads it if it is not at hand. -/
def lookUp (s : Service) (t : Ticket) (id : EdgeId) : Service × List Action :=
  match s.cache.getEdge id with
  | (cache, some ref) => { s with cache }.finish t (.edge (some ref))
  | (cache, none) => { s with cache }.startReading t id .answer

/-- Starts a login. Without a session it is denied before anything is asked. -/
def startLogin (s : Service) (t : Ticket) (session : Option String) : Service × List Action :=
  match session.filter (· ≠ "") with
  | none => s.finish t (.login (.error (.auth .missingSession)))
  | some session => (s.await t .confirming, [.confirm t session])

/-- Goes on with a login after its session was confirmed or denied. -/
def sessionConfirmed (s : Service) (t : Ticket) :
    Except AuthError SessionInfo → Service × List Action
  | .error e => s.finish t (.login (.error (.auth e)))
  | .ok info => s.resolveGrants t info.user [] info.devices

/-- Starts the search for an API key; an empty one belongs to no edge. -/
def startSearch (s : Service) (t : Ticket) (apikey : String) : Service × List Action :=
  if apikey = "" then s.finish t (.edgeIds [])
  else (s.await t .searching, [.search t [.equals .apikey (.text apikey)]])

/-- Queues a refresh in the background, if there is a permit. -/
def warmUp (s : Service) (id : EdgeId) : Service × List Action :=
  match s.permits with
  | 0 => (s, [])
  | permits + 1 =>
    let t := Ticket.warmUp s.warmUps
    ({ s with permits, warmUps := s.warmUps + 1 }.await t (.queued id), [.queue t])

/-- Queues refreshes in the background as long as there are permits. -/
def warmUpAll (s : Service) : List EdgeId → Service × List Action
  | [] => (s, [])
  | id :: rest =>
    let (s, first) := s.warmUp id
    let (s, more) := s.warmUpAll rest
    (s, first ++ more)

/-- The edges among some identifiers: zero is none. -/
def validIds (ids : List UInt32) : List EdgeId :=
  ids.filterMap fun id => (RecordId.ofWord id).toOption

/-- Goes on after a search. A failed one finds nothing; what was found is refreshed in the
background. -/
def searchDone (s : Service) (t : Ticket) (result : Except DirectoryError (List UInt32)) :
    Service × List Action :=
  match result with
  | .error _ => s.finish t (.edgeIds [])
  | .ok ids =>
    let ids := validIds ids
    let (s, queued) := (s.close t).warmUpAll ids
    (s, queued ++ [.finish t (.edgeIds ids)])

/-- What the service does about an action of its worker. -/
def ofWorker : WriteBack.Worker.Action → Action
  | .write owner batch => .writeBatch owner batch
  | .ended call => .finish (.call call) .done

def stepWorker (s : Service) (e : WriteBack.Worker.Event) : Service × List Action :=
  let (worker, actions) := s.worker.step e
  ({ s with worker }, actions.map ofWorker)

/-- Updates an instance. What changes is stored at once if the instance is current, and what is
observed is marked. -/
def updateInstance (s : Service) (t : Ticket) (ref : EdgeRef) (u : Edge.Update) :
    Service × List Action :=
  match s.instance? ref with
  | none => s.finish t .done
  | some i =>
    let (edge, notice) := i.edge.update u
    let s := { s with instances := s.instances.set ref { i with edge } }
    match notice.map WriteBack.effect with
    | none => s.finish t .done
    | some (.mark signal) => (s.stepWorker (.mark signal edge.id)).1.finish t .done
    | some effect =>
      match WriteBack.immediate? s.generations edge.id i.generation effect with
      | none => s.finish t .done
      | some (field, value) => (s.await t .storing, [.write t edge.id field value])

/-- Looks a user up; nothing is asked. -/
def findUser (s : Service) (t : Ticket) (id : UserId) : Service × List Action :=
  let (cache, found) := s.cache.getUser id
  { s with cache }.finish t (.user found)

/-- Starts a call, unless one of its number is under way. -/
def whenFree (s : Service) (n : Nat) (call : Ticket → Service × List Action) :
    Service × List Action :=
  if (s.task? (.call n)).isSome then (s, []) else call (.call n)

/-- The service after an event, and what it does. An event that no task waits for is passed over. -/
def step (s : Service) : Event → Service × List Action
  | .lookUp n id => s.whenFree n fun t => s.lookUp t id
  | .refresh n id => s.whenFree n fun t => s.startReading t id .answer
  | .logIn n session => s.whenFree n fun t => s.startLogin t session
  | .resolve n apikey => s.whenFree n fun t => s.startSearch t apikey
  | .findUser n id => s.whenFree n fun t => s.findUser t id
  | .update n ref u => s.whenFree n fun t => s.updateInstance t ref u
  | .drop n => (s.close (.call n), [])
  | .confirmed t result =>
    match s.task? t with
    | some .confirming => s.sessionConfirmed t result
    | _ => (s, [])
  | .searched t result =>
    match s.task? t with
    | some .searching => s.searchDone t result
    | _ => (s, [])
  | .turn t =>
    match s.task? t with
    | some (.queued id) => s.startReading t id .warmUp
    | _ => (s, [])
  | .record t result online =>
    match s.task? t with
    | some (.reading id purpose) => s.recordRead t id purpose result online
    | _ => (s, [])
  | .stored t =>
    match s.task? t with
    | some (.activating ref purpose) => s.install t ref purpose
    | some .storing => s.finish t .done
    | _ => (s, [])
  | .worker e => s.stepWorker e

theorem recordRead_error (s : Service) (t : Ticket) (id : EdgeId) (purpose : Purpose)
    (e : DirectoryError) (online : Bool) :
    s.recordRead t id purpose (.error e) online = s.resume t none purpose := rfl

theorem recordRead_of_decodeFor_error (s : Service) (t : Ticket) {id : EdgeId} (purpose : Purpose)
    {record : Directory.Record} {e : RecordError} (h : EdgeRecord.decodeFor id record = .error e)
    (online : Bool) : s.recordRead t id purpose (.ok record) online = s.resume t none purpose := by
  simp [recordRead, h]

theorem step_record_of_task?_none {s : Service} {t : Ticket} (h : s.task? t = none)
    (result : Except DirectoryError Directory.Record) (online : Bool) :
    s.step (.record t result online) = (s, []) := by
  simp [step, h]

theorem step_stored_of_task?_none {s : Service} {t : Ticket} (h : s.task? t = none) :
    s.step (.stored t) = (s, []) := by
  simp [step, h]

end EdgeFleet.Service
