import EdgeFleet.Cache.Recent
import EdgeFleet.User

/-! The edges and users at hand. A user is kept as the number of its account: the account changes when the
user logs in again, and who holds the number sees the change, also when the cache has given the user up. -/
namespace EdgeFleet

/-- The number of an account. -/
abbrev AccountRef := Nat

/-- The edges and users at hand, the latest used first, and every account made so far. -/
structure Cache (ε : Type) where
  edges : Cache.Recent EdgeId ε
  users : Cache.Recent UserId AccountRef
  accounts : List User

namespace Cache

variable {ε : Type}

/-- A cache that holds so many edges and users. -/
def empty (edges users : Option Capacity) : Cache ε :=
  ⟨.empty edges, .empty users, []⟩

def getEdge (c : Cache ε) (id : EdgeId) : Cache ε × Option ε :=
  let (edges, found) := c.edges.get id
  ({ c with edges }, found)

def containsEdge (c : Cache ε) (id : EdgeId) : Bool := c.edges.contains id

/-- Puts an edge in place of any other instance of it. -/
def putEdge (c : Cache ε) (id : EdgeId) (e : ε) : Cache ε :=
  { c with edges := c.edges.put id e }

/-- Puts an edge unless there is one. Gives the one that is there afterwards. -/
def putEdgeIfAbsent (c : Cache ε) (id : EdgeId) (e : ε) : Cache ε × ε :=
  match c.getEdge id with
  | (c, some there) => (c, there)
  | (c, none) => (c.putEdge id e, e)

/-- The identifiers of the edges, the latest used first. -/
def edgeIds (c : Cache ε) : List EdgeId := c.edges.keys

def edgeCount (c : Cache ε) : Nat := c.edges.size

def account? (c : Cache ε) (ref : AccountRef) : Option User := c.accounts[ref]?

def getUser (c : Cache ε) (id : UserId) : Cache ε × Option AccountRef :=
  let (users, found) := c.users.get id
  ({ c with users }, found)

/-- Stores a user whose grants are all known: the account of a user at hand is updated, for another
one an account is made. Gives the number of the account. -/
def upsertUser (c : Cache ε) (id : UserId) (name : String) (grants : List (EdgeId × Role)) :
    Cache ε × AccountRef :=
  match c.getUser id with
  | (c, some ref) => ({ c with accounts := c.accounts.modify ref (·.merge name grants) }, ref)
  | (c, none) =>
    let ref := c.accounts.length
    ({ c with
        users := c.users.put id ref
        accounts := c.accounts ++ [.ofGrants id name grants] }, ref)

def userCount (c : Cache ε) : Nat := c.users.size

def describe (c : Cache ε) : String :=
  Text.describeRecord "EntityCache"
    [("edges", Text.decimal c.edgeCount), ("users", Text.decimal c.userCount)] false

end Cache

end EdgeFleet
