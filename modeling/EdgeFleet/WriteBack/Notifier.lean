import EdgeFleet.Generations
import EdgeFleet.WriteBack.Schedule

namespace EdgeFleet.WriteBack

/-- The write that a notice of one generation of an edge leads to now, if any. -/
def immediate? (generations : Generations) (id : EdgeId) (generation : Nat) :
    Effect → Option (Directory.Field × Json)
  | .store field value =>
    if generations.isCurrent id generation then some (field, value) else none
  | .mark _ => none

theorem immediate?_eq_some {generations : Generations} {id : EdgeId} {generation : Nat}
    {e : Effect} {write : Directory.Field × Json}
    (h : immediate? generations id generation e = some write) :
    generations.isCurrent id generation = true ∧ e = .store write.1 write.2 := by
  cases e with
  | mark signal => simp [immediate?] at h
  | store field value =>
    cases hc : generations.isCurrent id generation with
    | false => simp [immediate?, hc] at h
    | true =>
      simp only [immediate?, hc, if_true, Option.some.injEq] at h
      exact ⟨rfl, by rw [← h]⟩

/-- Where notices go: the generations, the worker and the directory behind it. -/
structure Desk where
  generations : Generations := {}
  schedule : Schedule

namespace Desk

/-- Takes a notice of one generation of an edge. -/
def notice (d : Desk) (generation : Nat) (id : EdgeId) (n : Edge.Notice) : Desk :=
  match effect n with
  | .mark signal => { d with schedule := d.schedule.mark signal id }
  | e@(.store ..) =>
    match immediate? d.generations id generation e with
    | none => d
    | some (field, value) =>
      let directory := (d.schedule.directory.write [id.value] field value).1
      { d with schedule := { d.schedule with directory } }

end Desk

def describeNotifier (generation : Nat) : String :=
  Text.describeRecord "DirectoryEdgeNotifier" [("generation", Text.decimal generation)] true

end EdgeFleet.WriteBack
