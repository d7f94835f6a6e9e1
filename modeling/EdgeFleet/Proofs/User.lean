import EdgeFleet.Proofs.Ordered
import EdgeFleet.User
import Mathlib.Data.List.Dedup
import Mathlib.Data.List.Induction
import Mathlib.Data.List.Nodup

namespace EdgeFleet

namespace User

/-- What can be done to a user. -/
inductive Change
  | rename (name : String)
  | grant (edge : EdgeId) (role : Role)
  | merge (name : String) (grants : List (EdgeId × Role))

namespace Change

def apply (u : User) : Change → User
  | .rename name => u.rename name
  | .grant edge role => u.grant edge role
  | .merge name grants => u.merge name grants

def name? : Change → Option String
  | .rename name | .merge name _ => some name
  | .grant .. => none

/-- The grants that the change makes, in order. -/
def grants : Change → List (EdgeId × Role)
  | .rename _ => []
  | .grant edge role => [(edge, role)]
  | .merge _ grants => grants

end Change

def applyAll (u : User) (changes : List Change) : User := changes.foldl Change.apply u

/-- The last name that some changes give, after a first one. -/
def lastName (first : String) (changes : List Change) : String :=
  (changes.filterMap Change.name?).getLast?.getD first

/-- The role of the last grant of an edge. -/
def lastRole? (edge : EdgeId) (grants : List (EdgeId × Role)) : Option Role :=
  (grants.filter (·.1 = edge)).getLast?.map (·.2)

theorem applyAll_append (u : User) (changes more : List Change) :
    u.applyAll (changes ++ more) = (u.applyAll changes).applyAll more := List.foldl_append

theorem grantAll_rename (u : User) (name : String) (grants : List (EdgeId × Role)) :
    (u.grantAll grants).rename name = (u.rename name).grantAll grants := by
  induction grants generalizing u with
  | nil => rfl
  | cons g rest ih => exact ih (u.grant g.1 g.2)

theorem apply_eq (u : User) (c : Change) :
    c.apply u = (u.rename (c.name?.getD u.name)).grantAll c.grants := by
  cases c <;> rfl

/-- All names but the last are forgotten, and all grants count. -/
theorem applyAll_eq (u : User) (changes : List Change) :
    u.applyAll changes =
      (u.rename (lastName u.name changes)).grantAll (changes.flatMap Change.grants) := by
  induction changes using List.reverseRecOn with
  | nil => rfl
  | append_singleton changes c ih =>
    have hname : ((u.rename (lastName u.name changes)).grantAll
        (changes.flatMap Change.grants)).name = lastName u.name changes := name_grantAll _ _
    have hlast : c.name?.getD (lastName u.name changes) = lastName u.name (changes ++ [c]) := by
      cases hc : c.name? <;> simp [lastName, List.filterMap_append, hc]
    rw [applyAll_append, ih]
    change c.apply _ = _
    rw [apply_eq, hname, hlast, grantAll_rename, List.flatMap_append, grantAll_append]
    simp [rename]

section Grants

variable (id : UserId) (name : String) (grants : List (EdgeId × Role))

theorem role?_ofGrants (edge : EdgeId) :
    (ofGrants id name grants).role? edge = lastRole? edge grants := by
  have hnone : (⟨id, name, []⟩ : User).role? edge = none := rfl
  rw [ofGrants, role?_grantAll, hnone, Option.or_none, lastRole?]

theorem ascending_grantAll (u : User) (h : Ordered.Ascending (u.roles.map (·.1))) :
    Ordered.Ascending ((u.grantAll grants).roles.map (·.1)) := by
  induction grants generalizing u with
  | nil => exact h
  | cons g rest ih => exact ih (u.grant g.1 g.2) (ascending_grant u g.1 g.2 h)

theorem ascending_ofGrants : Ordered.Ascending ((ofGrants id name grants).roles.map (·.1)) :=
  ascending_grantAll grants _ List.Pairwise.nil

theorem mem_roles_ofGrants {edge : EdgeId} {role : Role} :
    (edge, role) ∈ (ofGrants id name grants).roles ↔ lastRole? edge grants = some role := by
  rw [Ordered.mem_iff_get? (ascending_ofGrants id name grants), ← role?_ofGrants id name grants]
  rfl

theorem isSome_lastRole? {edge : EdgeId} :
    (lastRole? edge grants).isSome = true ↔ edge ∈ grants.map (·.1) := by
  simp [lastRole?]

theorem mem_edges_ofGrants {edge : EdgeId} :
    edge ∈ (ofGrants id name grants).roles.map (·.1) ↔ edge ∈ grants.map (·.1) := by
  rw [← isSome_lastRole? grants, Option.isSome_iff_exists]
  simp only [List.mem_map, Prod.exists, exists_and_right, exists_eq_right, mem_roles_ofGrants]

theorem nodup_edges_ofGrants : ((ofGrants id name grants).roles.map (·.1)).Nodup := by
  refine (ascending_ofGrants id name grants).imp fun h => ?_
  exact Ordered.ne_of_compare_lt (Ordering.isLT_iff_eq_lt.mp h)

theorem pairwise_roles_ofGrants :
    (ofGrants id name grants).roles.Pairwise fun p q => p.1.value < q.1.value := by
  refine (List.pairwise_map.mp (ascending_ofGrants id name grants)).imp fun {p q} h => ?_
  have hlt : compare p.1.value q.1.value = .lt := Ordering.isLT_iff_eq_lt.mp h
  exact Std.compare_eq_lt.mp hlt

/-- Each edge counts once, however often it was granted. -/
theorem edgeCount_ofGrants :
    (ofGrants id name grants).edgeCount = (grants.map (·.1)).dedup.length := by
  have hperm : ((ofGrants id name grants).roles.map (·.1)).Perm (grants.map (·.1)).dedup := by
    apply (List.perm_ext_iff_of_nodup (nodup_edges_ofGrants id name grants)
      (List.nodup_dedup _)).mpr
    intro edge
    rw [List.mem_dedup, mem_edges_ofGrants]
  rw [edgeCount, ← hperm.length_eq, List.length_map]

/-- Any listing of the last roles is the roles once it is sorted by its edges. -/
theorem mergeSort_eq_roles {listing : List (EdgeId × Role)} (hn : (listing.map (·.1)).Nodup)
    (hm : ∀ edge role, (edge, role) ∈ listing ↔ lastRole? edge grants = some role) :
    listing.mergeSort (fun p q => p.1.value ≤ q.1.value) = (ofGrants id name grants).roles := by
  have hroles := nodup_edges_ofGrants id name grants
  have hperm : listing.Perm (ofGrants id name grants).roles := by
    apply (List.perm_ext_iff_of_nodup hn.of_map hroles.of_map).mpr
    rintro ⟨edge, role⟩
    rw [hm, mem_roles_ofGrants]
  have hsorted : (listing.mergeSort fun p q => p.1.value ≤ q.1.value).Pairwise fun p q =>
      p.1.value ≤ q.1.value := by
    refine (List.pairwise_mergeSort (fun p q r hpq hqr => ?_) (fun p q => ?_) listing).imp ?_
    · simp only [decide_eq_true_eq] at hpq hqr ⊢
      exact UInt32.le_trans hpq hqr
    · simpa using UInt32.le_total p.1.value q.1.value
    · exact of_decide_eq_true
  have hascending : (ofGrants id name grants).roles.Pairwise fun p q => p.1.value ≤ q.1.value :=
    (pairwise_roles_ofGrants id name grants).imp UInt32.le_of_lt
  have hall := (List.mergeSort_perm listing fun p q => p.1.value ≤ q.1.value).trans hperm
  refine hall.eq_of_pairwise ?_ hsorted hascending
  rintro ⟨edge, role⟩ ⟨other, role'⟩ hp hq hle hge
  have hcompare : compare edge.value other.value = .eq :=
    Std.compare_eq_iff_eq.mpr (UInt32.le_antisymm hle hge)
  have hedge : edge = other := RecordId.compare_eq_iff.mp hcompare
  have hrole := (mem_roles_ofGrants id name grants).mp (hall.mem_iff.mp hp)
  have hrole' := (mem_roles_ofGrants id name grants).mp hq
  rw [hedge, hrole', Option.some.injEq] at hrole
  rw [hedge, hrole]

end Grants

/-- What a user shows after a history: its name and, by all ways of asking, the last roles. -/
structure Told (u : User) (id : UserId) (name : String) (grants : List (EdgeId × Role)) : Prop where
  identity : u.id = id
  named : u.name = name
  /-- An edge has the role of its last grant, and no role if it never was granted. -/
  role : ∀ edge, u.role? edge = lastRole? edge grants
  /-- The roles are those of the edges that were granted, each once, in ascending order. -/
  edges : ∀ edge, edge ∈ u.roles.map (·.1) ↔ edge ∈ grants.map (·.1)
  roles : ∀ edge role, (edge, role) ∈ u.roles ↔ lastRole? edge grants = some role
  ascending : u.roles.Pairwise fun p q => p.1.value < q.1.value
  /-- In whatever order the last roles are listed, sorting them by their edges comes to this. -/
  sorted : ∀ listing : List (EdgeId × Role), (listing.map (·.1)).Nodup →
    (∀ edge role, (edge, role) ∈ listing ↔ lastRole? edge grants = some role) →
    listing.mergeSort (fun p q => p.1.value ≤ q.1.value) = u.roles
  /-- The count is that of the edges that were granted, and the user as a value shows all of this. -/
  count : u.edgeCount = (grants.map (·.1)).dedup.length
  shown : u.toJson.get? "id" = some id.toJson ∧ u.toJson.get? "name" = some (.text name) ∧
    u.toJson.get? "edges" = some (.array (u.roles.map fun (edge, role) =>
      .ofMembers [("edge_id", edge.toJson), ("role", .text role.name)]))

theorem told_ofGrants (id : UserId) (name : String) (grants : List (EdgeId × Role)) :
    Told (ofGrants id name grants) id name grants := by
  have hid : (ofGrants id name grants).id = id := id_grantAll _ _
  have hname : (ofGrants id name grants).name = name := name_grantAll _ _
  refine ⟨hid, hname, role?_ofGrants id name grants, fun edge => mem_edges_ofGrants id name grants,
    fun edge role => mem_roles_ofGrants id name grants, pairwise_roles_ofGrants id name grants,
    fun listing hn hm => mergeSort_eq_roles id name grants hn hm, edgeCount_ofGrants id name grants, ?_⟩
  rw [toJson, hid, hname]
  exact ⟨rfl, rfl, rfl⟩

/-- A user is what its history says, and a merge is a renaming followed by its grants one by one. -/
theorem told_by_history (id : UserId) (name : String) (initial : List (EdgeId × Role))
    (changes : List Change) :
    Told ((ofGrants id name initial).applyAll changes) id (lastName name changes)
      (initial ++ changes.flatMap Change.grants) ∧
    ∀ (u : User) (name : String) (grants : List (EdgeId × Role)),
      u.applyAll [.merge name grants] =
        u.applyAll (.rename name :: grants.map fun g => .grant g.1 g.2) := by
  constructor
  · have hfirst : (ofGrants id name initial).name = name := name_grantAll _ _
    have hall : (ofGrants id name initial).applyAll changes =
        ofGrants id (lastName name changes) (initial ++ changes.flatMap Change.grants) := by
      rw [applyAll_eq, hfirst, ofGrants, grantAll_rename, ofGrants, grantAll_append]
      rfl
    rw [hall]
    exact told_ofGrants id _ _
  · intro u name grants
    simp only [applyAll, List.foldl_cons, List.foldl_nil, List.foldl_map]
    rfl

end User

end EdgeFleet
