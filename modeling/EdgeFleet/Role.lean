import EdgeFleet.Json.Shape
import EdgeFleet.Text.Blank

namespace EdgeFleet

/-- A user's rights on one edge. -/
inductive Role
  | admin
  | installer
  | owner
  | guest
  deriving DecidableEq

namespace Role

/-- Every role, the most privileged first. -/
def all : List Role := [.admin, .installer, .owner, .guest]

def name : Role → String
  | .admin => "admin"
  | .installer => "installer"
  | .owner => "owner"
  | .guest => "guest"

def describe : Role → String
  | .admin => "Admin"
  | .installer => "Installer"
  | .owner => "Owner"
  | .guest => "Guest"

/-- The place of the role in the order. -/
def rank : Role → Nat
  | .admin => 0
  | .installer => 1
  | .owner => 2
  | .guest => 3

instance : Ord Role := ⟨fun a b => compare a.rank b.rank⟩

/-- The roles, the most privileged first. -/
def sort (roles : List Role) : List Role :=
  roles.mergeSort fun a b => a.rank ≤ b.rank

/-- The role whose name a text shows, but for white space around it and the case of letters. -/
def parse? (s : String) : Option Role :=
  let name := Text.lowerAscii (Text.trim s)
  all.find? (·.name == name)

theorem parse?_name (r : Role) : parse? r.name = some r := by
  cases r <;> rfl

theorem parse?_eq_some {s : String} {r : Role} :
    parse? s = some r ↔ Text.lowerAscii (Text.trim s) = r.name := by
  constructor
  · intro h
    simp only [parse?] at h
    have hb := List.find?_some h
    simp only [beq_iff_eq] at hb
    exact hb.symm
  · intro h
    simp only [parse?, h]
    cases r <;> rfl

/-- The role whose name a text shows; any other text gives the least privileged one. -/
def ofText (s : String) : Role :=
  (parse? s).getD .guest

/-- A text that shows no name gives the least privileged role, any other one the role it names. -/
theorem ofText_eq_iff {s : String} {r : Role} :
    ofText s = r ↔ Text.lowerAscii (Text.trim s) = r.name ∨
      r = .guest ∧ ∀ other : Role, Text.lowerAscii (Text.trim s) ≠ other.name := by
  simp only [← parse?_eq_some, Ne, ofText]
  cases h : parse? s with
  | none => simp [eq_comm]
  | some found => simp

def reader : Json.Reader Role :=
  Json.Reader.choice (all.map fun r => (r.name, r))

end Role

end EdgeFleet
