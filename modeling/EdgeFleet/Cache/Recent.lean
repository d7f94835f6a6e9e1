namespace EdgeFleet.Cache

/-- A positive bound on a number of entries. -/
structure Capacity where
  limit : Nat
  pos : 0 < limit
  deriving DecidableEq

/-- The bound of a number, unless that is zero. -/
def Capacity.ofNat? (n : Nat) : Option Capacity :=
  if h : 0 < n then some ⟨n, h⟩ else none

/-- A map with its entries in the order of their last use, the latest first. -/
structure Recent (κ : Type) (α : Type) where
  capacity : Option Capacity
  entries : List (κ × α)

namespace Recent

variable {κ α : Type} [DecidableEq κ]

/-- A map without entries. -/
def empty (capacity : Option Capacity) : Recent κ α := ⟨capacity, []⟩

/-- As many of the first entries as the capacity allows. -/
def cut {β : Type} (capacity : Option Capacity) (entries : List β) : List β :=
  match capacity with
  | none => entries
  | some c => entries.take c.limit

/-- The value of a key, which does not count as a use. -/
def peek? (m : Recent κ α) (k : κ) : Option α :=
  (m.entries.find? (·.1 = k)).map (·.2)

/-- Whether the key has an entry, which does not count as a use. -/
def contains (m : Recent κ α) (k : κ) : Bool :=
  (m.peek? k).isSome

def others (m : Recent κ α) (k : κ) : List (κ × α) :=
  m.entries.filter (·.1 ≠ k)

/-- Sets the value of a key, as its latest use. -/
def put (m : Recent κ α) (k : κ) (a : α) : Recent κ α :=
  { m with entries := cut m.capacity ((k, a) :: m.others k) }

/-- The map after a use of a key, if the key has an entry. -/
def touch (m : Recent κ α) (k : κ) : Recent κ α :=
  match m.peek? k with
  | none => m
  | some a => { m with entries := (k, a) :: m.others k }

/-- The value of a key and the map after its use. -/
def get (m : Recent κ α) (k : κ) : Recent κ α × Option α :=
  (m.touch k, m.peek? k)

/-- The keys in the order of their last use. -/
def keys (m : Recent κ α) : List κ := m.entries.map (·.1)

def size (m : Recent κ α) : Nat := m.entries.length

theorem map_cut {β γ : Type} (f : β → γ) (capacity : Option Capacity) (entries : List β) :
    (cut capacity entries).map f = cut capacity (entries.map f) := by
  cases capacity <;> simp [cut]

theorem cut_cons {β : Type} (capacity : Option Capacity) (b : β) (rest : List β) :
    ∃ kept, cut capacity (b :: rest) = b :: kept := by
  cases capacity with
  | none => exact ⟨rest, rfl⟩
  | some c =>
    obtain ⟨limit, pos⟩ := c
    cases limit with
    | zero => exact absurd pos (Nat.lt_irrefl 0)
    | succ n => exact ⟨rest.take n, rfl⟩

theorem keys_others (m : Recent κ α) (k : κ) :
    (m.others k).map (·.1) = m.keys.filter (· ≠ k) := by
  simp only [others, keys, List.filter_map]
  rfl

/-- The key that was set comes first, and what the capacity does not allow is given up at the end. -/
theorem keys_put (m : Recent κ α) (k : κ) (a : α) :
    (m.put k a).keys = cut m.capacity (k :: m.keys.filter (· ≠ k)) := by
  rw [← keys_others]
  exact map_cut _ _ _

theorem peek?_put_self (m : Recent κ α) (k : κ) (a : α) : (m.put k a).peek? k = some a := by
  obtain ⟨kept, h⟩ := cut_cons m.capacity (k, a) (m.others k)
  simp [put, peek?, h]

theorem find?_others_of_ne (m : Recent κ α) {k j : κ} (h : j ≠ k) :
    (m.others k).find? (·.1 = j) = m.entries.find? (·.1 = j) := by
  rw [others, List.find?_filter]
  congr 1
  funext p
  by_cases hp : p.1 = j
  · simp [hp, h]
  · simp [hp]

theorem find?_cons_others_of_ne (m : Recent κ α) {k j : κ} (h : j ≠ k) (a : α) :
    ((k, a) :: m.others k).find? (·.1 = j) = m.entries.find? (·.1 = j) := by
  have hk : ¬ k = j := fun e => h e.symm
  simp only [List.find?_cons, hk, decide_false, find?_others_of_ne m h]

/-- Setting a key gives up no other one if there is no bound. -/
theorem peek?_put_of_ne (m : Recent κ α) (hm : m.capacity = none) {k j : κ} (h : j ≠ k) (a : α) :
    (m.put k a).peek? j = m.peek? j := by
  simp only [put, peek?, hm, cut, find?_cons_others_of_ne m h]

/-- What is there under another key after a key was set was there before. -/
theorem peek?_of_put_of_ne (m : Recent κ α) {k j : κ} (h : j ≠ k) {a b : α}
    (hb : (m.put k a).peek? j = some b) : m.peek? j = some b := by
  cases hc : m.capacity with
  | none => rwa [peek?_put_of_ne m hc h] at hb
  | some c =>
    simp only [put, peek?, hc, cut, Option.map_eq_some_iff] at hb
    obtain ⟨p, hp, rfl⟩ := hb
    have hp' := (List.take_prefix c.limit _).find?_eq_some hp
    rw [find?_cons_others_of_ne m h] at hp'
    simp [peek?, hp']

theorem capacity_touch (m : Recent κ α) (k : κ) : (m.touch k).capacity = m.capacity := by
  cases h : m.peek? k <;> simp [touch, h]

theorem peek?_touch (m : Recent κ α) (k j : κ) : (m.touch k).peek? j = m.peek? j := by
  cases h : m.peek? k with
  | none => rw [touch, h]
  | some a =>
    rw [touch, h]
    by_cases hj : j = k
    · subst hj
      rw [h]
      simp [peek?]
    · simp only [peek?, find?_cons_others_of_ne m hj]

end Recent

end EdgeFleet.Cache
