import EdgeFleet.Decimal.Double
import EdgeFleet.Ordered

namespace EdgeFleet

/-- A number: an integer of at most 64 bits, or a finite double. -/
inductive Number
  | integer (n : Int)
  | real (x : Decimal.Double)
  deriving DecidableEq, Inhabited

/-- A JSON value. The members of an object stand in ascending order of their names, each name once. -/
inductive Json
  | null
  | bool (b : Bool)
  | number (n : Number)
  | text (s : String)
  | array (items : List Json)
  | object (members : List (String × Json))
  deriving Inhabited

namespace Json

/-- An object's members. -/
abbrev Members := List (String × Json)

/-- The greatest integer of a value. -/
def maxInteger : Int := 0xFFFFFFFFFFFFFFFF

/-- The least integer of a value. -/
def minInteger : Int := -0x8000000000000000

/-- A natural number as a value. -/
def ofNat (n : Nat) : Json := .number (.integer n)

/-- An integer as a value. -/
def ofInt (n : Int) : Json := .number (.integer n)

/-- The object of the given members; a later member of a name replaces an earlier one. -/
def ofMembers (members : Members) : Json := .object (Ordered.ofList members)

def get? (j : Json) (name : String) : Option Json :=
  match j with
  | .object members => Ordered.get? name members
  | _ => none

/-- Whether two numbers are equal: integers by value, doubles by value, never one to the other. -/
def sameNumber : Number → Number → Bool
  | .integer m, .integer n => m == n
  | .real x, .real y => x.same y
  | _, _ => false

mutual

/-- Whether two values are equal. -/
def same : Json → Json → Bool
  | .null, .null => true
  | .bool a, .bool b => a == b
  | .number m, .number n => sameNumber m n
  | .text s, .text t => s == t
  | .array as, .array bs => sameItems as bs
  | .object as, .object bs => sameMembers as bs
  | _, _ => false

/-- Whether two arrays are equal item by item. -/
def sameItems : List Json → List Json → Bool
  | [], [] => true
  | a :: as, b :: bs => same a b && sameItems as bs
  | _, _ => false

/-- Whether two objects in ascending order are equal member by member. -/
def sameMembers : List (String × Json) → List (String × Json) → Bool
  | [], [] => true
  | (k, a) :: as, (l, b) :: bs => k == l && same a b && sameMembers as bs
  | _, _ => false

end

mutual

/-- Whether the names of every object ascend and every integer fits 64 bits, as in every value that
is read from a text. -/
def Canonical : Json → Prop
  | .number (.integer n) => minInteger ≤ n ∧ n ≤ maxInteger
  | .array items => CanonicalItems items
  | .object members => Ordered.Ascending (members.map (·.1)) ∧ CanonicalMembers members
  | _ => True

/-- Whether every item is canonical. -/
def CanonicalItems : List Json → Prop
  | [] => True
  | a :: rest => Canonical a ∧ CanonicalItems rest

/-- Whether the value of every member is canonical. -/
def CanonicalMembers : List (String × Json) → Prop
  | [] => True
  | (_, a) :: rest => Canonical a ∧ CanonicalMembers rest

end

mutual

/-- Whether the value holds no number with a fraction or an exponent. -/
def Integral : Json → Prop
  | .number (.real _) => False
  | .array items => IntegralItems items
  | .object members => IntegralMembers members
  | _ => True

/-- Whether every item is integral. -/
def IntegralItems : List Json → Prop
  | [] => True
  | a :: rest => Integral a ∧ IntegralItems rest

/-- Whether the value of every member is integral. -/
def IntegralMembers : List (String × Json) → Prop
  | [] => True
  | (_, a) :: rest => Integral a ∧ IntegralMembers rest

end

mutual

/-- How deep arrays and objects are nested. -/
def depth : Json → Nat
  | .array items => depthItems items + 1
  | .object members => depthMembers members + 1
  | _ => 0

/-- The greatest depth of an item. -/
def depthItems : List Json → Nat
  | [] => 0
  | a :: rest => max (depth a) (depthItems rest)

/-- The greatest depth of a member's value. -/
def depthMembers : List (String × Json) → Nat
  | [] => 0
  | (_, a) :: rest => max (depth a) (depthMembers rest)

end

end Json

end EdgeFleet
