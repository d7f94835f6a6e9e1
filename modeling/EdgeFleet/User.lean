import EdgeFleet.RecordId
import EdgeFleet.Role

namespace EdgeFleet

/-- An authenticated user. -/
structure User where
  id : UserId
  name : String
  roles : List (EdgeId × Role)
  deriving DecidableEq

namespace User

/-- Grants a role on an edge, in place of an earlier one. -/
def grant (u : User) (edge : EdgeId) (role : Role) : User :=
  { u with roles := Ordered.insert edge role u.roles }

/-- Grants several roles in order. -/
def grantAll (u : User) (grants : List (EdgeId × Role)) : User :=
  grants.foldl (fun u (edge, role) => u.grant edge role) u

def rename (u : User) (name : String) : User := { u with name }

/-- Renames the user and adds grants; grants of other edges are kept. -/
def merge (u : User) (name : String) (grants : List (EdgeId × Role)) : User :=
  (u.rename name).grantAll grants

def ofGrants (id : UserId) (name : String) (grants : List (EdgeId × Role)) : User :=
  grantAll ⟨id, name, []⟩ grants

/-- The role on an edge, if there is one. -/
def role? (u : User) (edge : EdgeId) : Option Role := Ordered.get? edge u.roles

/-- On how many edges the user has a role. -/
def edgeCount (u : User) : Nat := u.roles.length

/-- The user as a value, with the edges in ascending order. -/
def toJson (u : User) : Json :=
  .ofMembers
    [("id", u.id.toJson), ("name", .text u.name),
      ("edges", .array (u.roles.map fun (edge, role) =>
        .ofMembers [("edge_id", edge.toJson), ("role", .text role.name)]))]

theorem grantAll_append (u : User) (grants more : List (EdgeId × Role)) :
    u.grantAll (grants ++ more) = (u.grantAll grants).grantAll more := by
  simp [grantAll]

theorem role?_grant_self (u : User) (edge : EdgeId) (role : Role) :
    (u.grant edge role).role? edge = some role :=
  Ordered.get?_insert_self edge role u.roles

theorem role?_grant_of_ne (u : User) {edge other : EdgeId} (h : other ≠ edge) (role : Role) :
    (u.grant edge role).role? other = u.role? other :=
  Ordered.get?_insert_of_ne h role u.roles

theorem grantAll_cons (u : User) (edge : EdgeId) (role : Role) (rest : List (EdgeId × Role)) :
    u.grantAll ((edge, role) :: rest) = (u.grant edge role).grantAll rest := rfl

theorem id_grantAll (u : User) (grants : List (EdgeId × Role)) : (u.grantAll grants).id = u.id := by
  induction grants generalizing u with
  | nil => rfl
  | cons g rest ih => exact ih (u.grant g.1 g.2)

theorem name_grantAll (u : User) (grants : List (EdgeId × Role)) :
    (u.grantAll grants).name = u.name := by
  induction grants generalizing u with
  | nil => rfl
  | cons g rest ih => exact ih (u.grant g.1 g.2)

/-- Of several grants of an edge the last one counts; without one the role stays. -/
theorem role?_grantAll (u : User) (grants : List (EdgeId × Role)) (edge : EdgeId) :
    (u.grantAll grants).role? edge =
      ((grants.filter (·.1 = edge)).getLast?.map (·.2)).or (u.role? edge) := by
  induction grants generalizing u with
  | nil => simp [grantAll]
  | cons g rest ih =>
    obtain ⟨other, role⟩ := g
    rw [grantAll_cons, ih]
    by_cases h : other = edge
    · subst h
      rw [role?_grant_self]
      cases hl : (rest.filter (·.1 = other)).getLast? <;>
        simp [List.getLast?_cons, hl]
    · have he : edge ≠ other := fun e => h e.symm
      rw [role?_grant_of_ne u he, List.filter_cons_of_neg (by simpa using h)]

theorem ascending_grant (u : User) (edge : EdgeId) (role : Role)
    (h : Ordered.Ascending (u.roles.map (·.1))) :
    Ordered.Ascending ((u.grant edge role).roles.map (·.1)) :=
  Ordered.ascending_insert edge role h

end User

end EdgeFleet
