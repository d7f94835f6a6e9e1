import EdgeFleet.RecordId

namespace EdgeFleet

/-- The last number handed out for each edge that has one. The numbers have no end here: what a counter of
64 bits does after `2 ^ 64` readings of one edge is left out. -/
structure Generations where
  latest : List (EdgeId × Nat) := []

namespace Generations

/-- The last number handed out for an edge, zero if there is none. -/
def last (g : Generations) (id : EdgeId) : Nat := (Ordered.get? id g.latest).getD 0

/-- Hands out the next number of an edge. -/
def advance (g : Generations) (id : EdgeId) : Generations × Nat :=
  let next := g.last id + 1
  (⟨Ordered.insert id next g.latest⟩, next)

/-- Whether the number is the last one handed out for the edge. -/
def isCurrent (g : Generations) (id : EdgeId) (generation : Nat) : Bool :=
  Ordered.get? id g.latest == some generation

/-- Applies a change if the number is current, and says whether it did. -/
def installIfCurrent (g : Generations) (id : EdgeId) (generation : Nat) (change : α → α) (a : α) :
    α × Bool :=
  if g.isCurrent id generation then (change a, true) else (a, false)

theorem isCurrent_iff {g : Generations} {id : EdgeId} {generation : Nat} :
    g.isCurrent id generation = true ↔ Ordered.get? id g.latest = some generation := by
  simp [isCurrent]

theorem last_of_isCurrent {g : Generations} {id : EdgeId} {generation : Nat}
    (h : g.isCurrent id generation = true) : g.last id = generation := by
  rw [last, isCurrent_iff.mp h]
  rfl

/-- The number handed out last is the current one; zero is never handed out. -/
theorem isCurrent_iff_last {g : Generations} {id : EdgeId} {generation : Nat}
    (h : 0 < generation) : g.isCurrent id generation = true ↔ g.last id = generation := by
  refine ⟨last_of_isCurrent, fun hl => isCurrent_iff.mpr ?_⟩
  cases hg : Ordered.get? id g.latest with
  | none =>
    have hz : g.last id = 0 := by simp [last, hg]
    omega
  | some n => simpa [last, hg] using hl

theorem last_lt_advance (g : Generations) (id : EdgeId) : g.last id < (g.advance id).2 := by
  simp [advance]

theorem last_advance_self (g : Generations) (id : EdgeId) :
    (g.advance id).1.last id = (g.advance id).2 := by
  simp [advance, last, Ordered.get?_insert_self]

theorem last_advance_of_ne (g : Generations) {id other : EdgeId} (h : other ≠ id) :
    (g.advance id).1.last other = g.last other := by
  simp [advance, last, Ordered.get?_insert_of_ne h]

/-- After an advance nothing is current but the number handed out. -/
theorem isCurrent_advance_self (g : Generations) (id : EdgeId) (generation : Nat) :
    (g.advance id).1.isCurrent id generation = true ↔ generation = (g.advance id).2 := by
  simp only [isCurrent_iff, advance, Ordered.get?_insert_self, Option.some.injEq]
  exact eq_comm

end Generations

end EdgeFleet
