import EdgeFleet.Json.Shape
import EdgeFleet.Text.Blank

namespace EdgeFleet

/-- The stage of an edge's life. -/
inductive EdgeState
  | active
  | inactive
  | test
  | installedOnStock
  deriving DecidableEq

namespace EdgeState

def all : List EdgeState := [.active, .inactive, .test, .installedOnStock]

def name : EdgeState → String
  | .active => "active"
  | .inactive => "inactive"
  | .test => "test"
  | .installedOnStock => "installed_on_stock"

def describe : EdgeState → String
  | .active => "Active"
  | .inactive => "Inactive"
  | .test => "Test"
  | .installedOnStock => "InstalledOnStock"

/-- The state whose name a text shows, but for white space around it and the case of letters. -/
def parse? (s : String) : Option EdgeState :=
  let name := Text.lowerAscii (Text.trim s)
  all.find? (·.name == name)

theorem parse?_name (s : EdgeState) : parse? s.name = some s := by
  cases s <;> rfl

def reader : Json.Reader EdgeState :=
  Json.Reader.choice (all.map fun s => (s.name, s))

end EdgeState

end EdgeFleet
