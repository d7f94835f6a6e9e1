import EdgeFleet.Cache.Recent
import EdgeFleet.Directory.Config
import EdgeFleet.Json.Shape
import EdgeFleet.Session.Config

namespace EdgeFleet

/-- The settings of the service. -/
structure Settings where
  url : String := "http://localhost:8069"
  database : String := "odoo"
  uid : UInt32 := 1
  password : String := ""
  authPath : String := "/openems_backend/info"
  timeoutSeconds : Nat := 5
  writeIntervalSeconds : Nat := 60
  refreshConcurrency : Nat := 16
  edgeCapacity : Option Cache.Capacity := none
  userCapacity : Option Cache.Capacity := none
  listenAddress : String := "0.0.0.0:8080"
  deriving DecidableEq

namespace Settings

/-- A number of 64 bits that a text shows. -/
def number? (s : String) : Option Nat :=
  Text.Numeral.unsigned? 0xFFFFFFFFFFFFFFFF s.toList

/-- A number of 32 bits that a text shows. -/
def word? (s : String) : Option UInt32 :=
  (Text.Numeral.unsigned? 0xFFFFFFFF s.toList).map Nat.toUInt32

def capacity? (s : String) : Option Cache.Capacity :=
  (number? s).bind Cache.Capacity.ofNat?

def names : List String :=
  ["DIRECTORY_URL", "DIRECTORY_DATABASE", "DIRECTORY_UID", "DIRECTORY_PASSWORD",
    "DIRECTORY_AUTH_PATH", "DIRECTORY_TIMEOUT_SECONDS", "WRITE_INTERVAL_SECONDS",
    "REFRESH_CONCURRENCY", "EDGE_CACHE_CAPACITY", "USER_CACHE_CAPACITY", "LISTEN_ADDR"]

def ofEnvironment (lookup : String → Option String) : Settings :=
  let standard : Settings := {}
  let capacity (name : String) (otherwise : Option Cache.Capacity) : Option Cache.Capacity :=
    ((lookup name).bind capacity?).orElse fun _ => otherwise
  { url := (lookup "DIRECTORY_URL").getD standard.url
    database := (lookup "DIRECTORY_DATABASE").getD standard.database
    uid := ((lookup "DIRECTORY_UID").bind word?).getD standard.uid
    password := (lookup "DIRECTORY_PASSWORD").getD standard.password
    authPath := (lookup "DIRECTORY_AUTH_PATH").getD standard.authPath
    timeoutSeconds :=
      ((lookup "DIRECTORY_TIMEOUT_SECONDS").bind number?).getD standard.timeoutSeconds
    writeIntervalSeconds :=
      ((lookup "WRITE_INTERVAL_SECONDS").bind number?).getD standard.writeIntervalSeconds
    refreshConcurrency :=
      ((lookup "REFRESH_CONCURRENCY").bind number?).getD standard.refreshConcurrency
    edgeCapacity := capacity "EDGE_CACHE_CAPACITY" standard.edgeCapacity
    userCapacity := capacity "USER_CACHE_CAPACITY" standard.userCapacity
    listenAddress := (lookup "LISTEN_ADDR").getD standard.listenAddress }

theorem ofEnvironment_none : ofEnvironment (fun _ => none) = {} := rfl

/-- Reads a capacity. -/
def capacityReader : Json.Reader Cache.Capacity := do
  match Cache.Capacity.ofNat? (← Json.Reader.word64 "a nonzero usize") with
  | some c => return c
  | none => Json.Reader.failHere (.wrongInteger 0 "a nonzero usize")

/-- Reads settings; what is left out has its default. -/
def reader : Json.Reader Settings :=
  let text := Json.Reader.text
  Json.Reader.record "MetadataConfig"
    [.of "url" true text fun url s => { s with url },
      .of "database" true text fun database s => { s with database },
      .of "uid" true Json.Reader.word32 fun uid s => { s with uid },
      .of "password" true text fun password s => { s with password },
      .of "auth_path" true text fun authPath s => { s with authPath },
      .of "timeout_seconds" true (Json.Reader.word64 "u64") fun n s => { s with timeoutSeconds := n },
      .of "write_interval_seconds" true (Json.Reader.word64 "u64")
        fun n s => { s with writeIntervalSeconds := n },
      .of "refresh_concurrency" true (Json.Reader.word64 "usize")
        fun n s => { s with refreshConcurrency := n },
      .of "edge_cache_capacity" true (Json.Reader.nullable capacityReader)
        fun c s => { s with edgeCapacity := c },
      .of "user_cache_capacity" true (Json.Reader.nullable capacityReader)
        fun c s => { s with userCapacity := c },
      .of "listen_addr" true text fun listenAddress s => { s with listenAddress }]
    { : Settings } .ok

def directory (s : Settings) : Directory.Config where
  url := s.url
  database := s.database
  uid := s.uid
  password := s.password
  timeoutSeconds := s.timeoutSeconds

def session (s : Settings) : Session.Config where
  baseUrl := s.url
  infoPath := s.authPath
  timeoutSeconds := s.timeoutSeconds

/-- The seconds between two writes of timestamps, at least one. -/
def writeInterval (s : Settings) : Nat := max s.writeIntervalSeconds 1

/-- How many edges may be refreshed in the background at once, at least one. -/
def refreshPermits (s : Settings) : Nat := max s.refreshConcurrency 1

/-- The settings in a diagnostic, without the password. -/
def describe (s : Settings) : String :=
  let capacity (c : Option Cache.Capacity) : String :=
    Text.describeOption (fun c => Text.decimal c.limit) c
  Text.describeRecord "MetadataConfig"
    [("url", Text.quoted s.url), ("database", Text.quoted s.database),
      ("uid", Text.decimal s.uid.toNat), ("password", Directory.maskPassword s.password),
      ("auth_path", Text.quoted s.authPath), ("timeout_seconds", Text.decimal s.timeoutSeconds),
      ("write_interval_seconds", Text.decimal s.writeIntervalSeconds),
      ("refresh_concurrency", Text.decimal s.refreshConcurrency),
      ("edge_cache_capacity", capacity s.edgeCapacity),
      ("user_cache_capacity", capacity s.userCapacity),
      ("listen_addr", Text.quoted s.listenAddress)] false

end Settings

end EdgeFleet
