import EdgeFleet.Proofs.Edge.Log
import Mathlib.Data.List.Induction
import Mathlib.Data.List.Perm.Basic

namespace EdgeFleet

theorem filterMap_toList {α β : Type} (f : α → Option β) (a : Option α) :
    a.toList.filterMap f = (a.bind f).toList := by
  cases a with
  | none => rfl
  | some a => cases h : f a <;> simp [h]

namespace Edge

/-- What an update says about the connection. -/
def Update.online? : Update → Option Bool
  | .online said => some said
  | _ => none

/-- What updates say about the connection, in order. -/
def presences (us : List Update) : List Bool := us.filterMap Update.online?

theorem update_of_online?_none {u : Update} (h : u.online? = none) (e : Edge) :
    (e.update u).1.state = e.state ∧ (e.update u).1.online = e.online := by
  cases u with
  | online online => cases h
  | config config => simp only [update]; split <;> exact ⟨rfl, rfl⟩
  | version version => simp only [update]; split <;> exact ⟨rfl, rfl⟩
  | soc soc => exact ⟨rfl, rfl⟩
  | ipv4 ipv4 => exact ⟨rfl, rfl⟩
  | message time => exact ⟨rfl, rfl⟩
  | data time => exact ⟨rfl, rfl⟩

theorem state?_of_online?_none {u : Update} (h : u.online? = none) (e : Edge) :
    (e.update u).2.bind Notice.state? = none := by
  cases u with
  | online online => cases h
  | config config => simp only [update]; split <;> rfl
  | version version => simp only [update]; split <;> rfl
  | soc soc => simp only [update]; split <;> rfl
  | ipv4 ipv4 => simp only [update]; split <;> rfl
  | message time => rfl
  | data time => rfl

theorem update_online_false (e : Edge) :
    e.update (.online false) = ({ e with online := false }, none) := by
  simp [update]

theorem update_online_true (e : Edge) : e.update (.online true) =
    if e.state = .inactive then ({ e with online := true, state := .active }, some .activated)
    else ({ e with online := true }, none) := by
  simp [update]

/-- Whether an edge in a state is activated by what is said about its connection. -/
def Activates (state : EdgeState) (said : List Bool) : Prop := state = .inactive ∧ true ∈ said

instance (state : EdgeState) (said : List Bool) : Decidable (Activates state said) :=
  inferInstanceAs (Decidable (_ ∧ _))

theorem activates_cons_true (state : EdgeState) (said : List Bool) :
    Activates state (true :: said) ↔ state = .inactive := by
  simp [Activates]

theorem activates_cons_false (state : EdgeState) (said : List Bool) :
    Activates state (false :: said) ↔ Activates state said := by
  simp [Activates]

theorem filterMap_log_cons (e : Edge) (u : Update) (us : List Update) :
    (e.log (u :: us)).filterMap Notice.state? =
      ((e.update u).2.bind Notice.state?).toList ++
        ((e.update u).1.log us).filterMap Notice.state? := by
  rw [log, List.filterMap_append, filterMap_toList]

/-- The state in the end, and the activations that were noticed. -/
theorem activation (e : Edge) (us : List Update) :
    (e.after us).state = (if Activates e.state (presences us) then .active else e.state) ∧
      (e.log us).filterMap Notice.state? =
        if Activates e.state (presences us) then [.active] else [] := by
  induction us generalizing e with
  | nil => simp [Activates, presences, after, log]
  | cons u us ih =>
    rw [after_cons, filterMap_log_cons]
    obtain ⟨hstate, hlog⟩ := ih (e.update u).1
    rw [hstate, hlog]
    cases hu : u.online? with
    | none =>
      have hp : presences (u :: us) = presences us := List.filterMap_cons_none hu
      rw [hp, (update_of_online?_none hu e).1, state?_of_online?_none hu e]
      exact ⟨rfl, rfl⟩
    | some online =>
      have hp : presences (u :: us) = online :: presences us := List.filterMap_cons_some hu
      have hself : u = .online online := by
        cases u <;> cases hu
        rfl
      subst hself
      rw [hp]
      cases online with
      | false =>
        rw [update_online_false]
        simp [activates_cons_false]
      | true =>
        rw [update_online_true]
        simp only [activates_cons_true]
        by_cases hi : e.state = .inactive
        · simp [hi, Activates, Notice.state?]
        · simp [hi, Activates]

theorem online_after (e : Edge) (us : List Update) :
    (e.after us).online = (presences us).getLast?.getD e.online := by
  induction us generalizing e with
  | nil => rfl
  | cons u us ih =>
    rw [after_cons, ih]
    cases hu : u.online? with
    | none =>
      have hp : presences (u :: us) = presences us := List.filterMap_cons_none hu
      rw [hp, (update_of_online?_none hu e).2]
    | some online =>
      have hp : presences (u :: us) = online :: presences us := List.filterMap_cons_some hu
      have honline : (e.update u).1.online = online := by
        cases u <;> cases hu
        simp only [update]
        split <;> rfl
      rw [hp, honline, List.getLast?_cons, Option.getD_some]

section Shared

/-- An edge that several calls set at a time. A call changes the edge and decides what is to be noticed
while it has the edge to itself, and gives its notice later; `owed` are the notices that are still to be
given, `given` those that were. -/
structure Shared where
  edge : Edge
  owed : List Notice := []
  given : List Notice := []

namespace Shared

/-- What a call does next: it sets something, or it gives one of the notices that are owed. What becomes
of a notice is nothing to the edge. -/
inductive Move
  | set (u : Update)
  | give (index : Nat)

def step (s : Shared) : Move → Shared
  | .set u =>
    { s with edge := (s.edge.update u).1, owed := s.owed ++ (s.edge.update u).2.toList }
  | .give index =>
    match s.owed[index]? with
    | none => s
    | some n => { s with owed := s.owed.eraseIdx index, given := s.given ++ [n] }

def run (s : Shared) (moves : List Move) : Shared := moves.foldl step s

/-- What is set, in the order in which the calls have the edge. -/
def updates (moves : List Move) : List Update :=
  moves.filterMap fun
    | .set u => some u
    | .give _ => none

theorem updates_append (moves more : List Move) :
    updates (moves ++ more) = updates moves ++ updates more := List.filterMap_append

theorem run_concat (s : Shared) (moves : List Move) (m : Move) :
    s.run (moves ++ [m]) = (s.run moves).step m := List.foldl_append

theorem perm_step_give (s : Shared) (index : Nat) :
    List.Perm ((s.step (.give index)).given ++ (s.step (.give index)).owed) (s.given ++ s.owed) := by
  simp only [step]
  split
  · exact .refl _
  · rename_i n hn
    obtain ⟨hlt, rfl⟩ := List.getElem?_eq_some_iff.mp hn
    have hone : List.Perm (s.owed[index] :: s.owed.eraseIdx index) s.owed :=
      List.getElem_cons_eraseIdx_perm hlt
    rw [List.append_assoc]
    exact hone.append_left s.given

/-- The edge is what its updates make of it, and every notice of theirs is given or still owed. -/
structure Consistent (e : Edge) (us : List Update) (s : Shared) : Prop where
  edge : s.edge = e.after us
  notices : List.Perm (s.given ++ s.owed) (e.log us)

theorem Consistent.step {e : Edge} {us : List Update} {s : Shared} (h : s.Consistent e us)
    (m : Move) : (s.step m).Consistent e (us ++ updates [m]) := by
  cases m with
  | set u =>
    change Consistent e (us ++ [u]) _
    constructor
    · rw [after_append, ← h.edge]
      rfl
    · rw [log_append, ← h.edge, log, log, List.append_nil]
      simp only [Shared.step]
      rw [← List.append_assoc]
      exact h.notices.append_right _
  | give index =>
    change Consistent e (us ++ []) _
    rw [List.append_nil]
    refine ⟨?_, (s.perm_step_give index).trans h.notices⟩
    rw [← h.edge]
    simp only [Shared.step]
    split <;> rfl

theorem consistent_run (e : Edge) (moves : List Move) :
    ((⟨e, [], []⟩ : Shared).run moves).Consistent e (updates moves) := by
  induction moves using List.reverseRecOn with
  | nil => exact ⟨rfl, .refl _⟩
  | append_singleton moves m ih =>
    have hlast := ih.step m
    rwa [← updates_append, ← run_concat] at hlast

end Shared

end Shared

/-- How an edge that is shared by calls is activated, where `r` is the record that it was made of. -/
structure ActivatesOnce (r : EdgeRecord) (moves : List Shared.Move) : Prop where
  /-- An inactive edge that was seen online is active, and any other one keeps its state. -/
  state : ((⟨ofRecord r, [], []⟩ : Shared).run moves).edge.state =
    if Activates r.state (presences (Shared.updates moves)) then .active else r.state
  /-- In that case one notice of it is given or still owed, and otherwise none is. -/
  notices : (((⟨ofRecord r, [], []⟩ : Shared).run moves).given ++
      ((⟨ofRecord r, [], []⟩ : Shared).run moves).owed).countP (·.state?.isSome) =
    if Activates r.state (presences (Shared.updates moves)) then 1 else 0
  /-- The edge is online as was last said, and at first it is not. -/
  online : ((⟨ofRecord r, [], []⟩ : Shared).run moves).edge.online =
    (presences (Shared.updates moves)).getLast?.getD false
  /-- Nothing else that is set touches the state or the connection. -/
  others : ∀ u, Update.online? u = none →
    (((⟨ofRecord r, [], []⟩ : Shared).run moves).edge.update u).1.state =
        ((⟨ofRecord r, [], []⟩ : Shared).run moves).edge.state ∧
      (((⟨ofRecord r, [], []⟩ : Shared).run moves).edge.update u).1.online =
        ((⟨ofRecord r, [], []⟩ : Shared).run moves).edge.online

theorem countP_state? (ns : List Notice) :
    ns.countP (·.state?.isSome) = (ns.filterMap Notice.state?).length := by
  rw [List.length_filterMap_eq_countP]

theorem activatesOnce (r : EdgeRecord) (moves : List Shared.Move) : ActivatesOnce r moves := by
  obtain ⟨hedge, hnotices⟩ := Shared.consistent_run (ofRecord r) moves
  obtain ⟨hstate, hlog⟩ := activation (ofRecord r) (Shared.updates moves)
  refine ⟨?_, ?_, ?_, fun u hu => update_of_online?_none hu _⟩
  · rw [hedge, hstate]
    rfl
  · rw [hnotices.countP_eq, countP_state?, hlog]
    simp only [apply_ite List.length]
    rfl
  · rw [hedge, online_after]
    rfl

end Edge

end EdgeFleet
