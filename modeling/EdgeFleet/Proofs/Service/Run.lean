import EdgeFleet.Proofs.Service.Turn
import Mathlib.Data.List.Induction

namespace EdgeFleet.Service

open Cache.Recent (Used)

/-- The service after some events. -/
def run (s : Service) (es : List Event) : Service :=
  es.foldl (fun s e => (s.step e).1) s

/-- The service and the event that happens to it. -/
structure Moment where
  before : Service
  event : Event

/-- The moments of a run. -/
def moments (s : Service) : List Event → List Moment
  | [] => []
  | e :: rest => ⟨s, e⟩ :: (s.step e).1.moments rest

def edgeOne : EdgeId := ⟨1, nofun⟩

def edgeTwo : EdgeId := ⟨2, nofun⟩

def userOne : UserId := ⟨1, nofun⟩

/-- A record of an edge in some state, as the directory sends it. -/
def recordOf (id : EdgeId) (state : EdgeState) : Directory.Record :=
  [("id", .number (.integer id.value.toNat)), ("state", .text state.name)]

theorem run_append (s : Service) (es more : List Event) :
    s.run (es ++ more) = (s.run es).run more := List.foldl_append

theorem run_concat (s : Service) (es : List Event) (e : Event) :
    s.run (es ++ [e]) = ((s.run es).step e).1 := run_append s es [e]

theorem moments_append (s : Service) (es more : List Event) :
    s.moments (es ++ more) = s.moments es ++ (s.run es).moments more := by
  induction es generalizing s with
  | nil => rfl
  | cons e rest ih => simp only [List.cons_append, moments, ih, run, List.foldl_cons]

theorem event_mem_of_mem_moments {s : Service} {es : List Event} {m : Moment}
    (h : m ∈ s.moments es) : m.event ∈ es := by
  induction es generalizing s with
  | nil => cases h
  | cons e rest ih =>
    rcases List.mem_cons.mp h with rfl | h
    · exact List.mem_cons_self
    · exact List.mem_cons_of_mem e (ih h)

theorem aligned_start (settings : Settings) : Aligned (start settings) := by
  refine ⟨fun n _ => rfl, ?_, ?_⟩
  · intro t id l ht
    cases ht
  · intro t ref p ht
    cases ht

theorem Aligned.quiet {s s' : Service} (ha : Aligned s) (h : Quiet s s') : Aligned s' := by
  refine ⟨h.free ha.free, ?_, ?_⟩
  · intro t id l ht
    rcases h.begun _ _ ht with ht | ho
    · exact ha.reading t id l ht
    · exact ho
  · intro t ref p ht
    rcases h.begun _ _ ht with ht | ho
    · simpa only [instance?, h.instances] using ha.activating t ref p ht
    · exact ho.elim

theorem Aligned.close {s : Service} (ha : Aligned s) (t : Ticket) : Aligned (s.close t) := by
  refine ⟨fun n hn => ?_, fun other id l ho => ha.reading other id l (task?_of_close ho),
    fun other ref p ho => ha.activating other ref p (task?_of_close ho)⟩
  rw [task?_close, ha.free n hn, ite_self]

theorem Aligned.withStore {s : Service} (ha : Aligned s) (id : EdgeId) (ref : EdgeRef) :
    Aligned (s.withStore id ref) := ⟨ha.free, ha.reading, ha.activating⟩

theorem instance?_withUpdate (s : Service) {ref : EdgeRef} {i : Instance}
    (hi : s.instance? ref = some i) (u : Edge.Update) (other : EdgeRef) :
    (s.withUpdate ref i u).instance? other =
      if other = ref then some { i with edge := (i.edge.update u).1 } else s.instance? other := by
  obtain ⟨hlt, -⟩ := List.getElem?_eq_some_iff.mp hi
  simp only [instance?, Service.withUpdate, List.getElem?_set, hlt, if_true]
  by_cases ho : other = ref
  · rw [if_pos ho, if_pos ho.symm]
  · rw [if_neg ho, if_neg (fun he => ho he.symm)]

theorem Aligned.withUpdate {s : Service} (ha : Aligned s) {ref : EdgeRef} {i : Instance}
    (hi : s.instance? ref = some i) (u : Edge.Update) : Aligned (s.withUpdate ref i u) := by
  refine ⟨ha.free, ha.reading, fun t other p ht => ?_⟩
  obtain ⟨j, hj, hl⟩ := ha.activating t other p ht
  rw [instance?_withUpdate s hi]
  by_cases ho : other = ref
  · subst ho
    have hij : i = j := Option.some.inj (hi.symm.trans hj)
    rw [if_pos rfl]
    refine ⟨_, rfl, fun l hpl => ?_⟩
    rw [Edge.id_update, hij]
    exact hl l hpl
  · rw [if_neg ho]
    exact ⟨j, hj, hl⟩

theorem instance?_withActivation (s : Service) (t : Ticket) (purpose : Purpose)
    (record : EdgeRecord) (online : Bool) (ref : EdgeRef) :
    (s.withActivation t purpose record online).instance? ref =
      if ref = s.instances.length then some (s.instanceOf record online)
      else s.instance? ref := by
  change (s.instances ++ [s.instanceOf record online])[ref]? = _
  by_cases h : ref = s.instances.length
  · rw [if_pos h, h, List.getElem?_concat_length]
  · rw [if_neg h, instance?]
    rcases Nat.lt_or_ge ref s.instances.length with hlt | hge
    · rw [List.getElem?_append_left hlt]
    · rw [List.getElem?_eq_none hge, List.getElem?_eq_none]
      rw [List.length_append]
      exact Nat.lt_of_le_of_ne hge (Ne.symm h)

theorem Aligned.withActivation {s : Service} (ha : Aligned s) {e : Event} {t : Ticket}
    {purpose : Purpose} {record : EdgeRecord} {online : Bool}
    (hd : s.Decodes e t purpose record online) :
    Aligned (s.withActivation t purpose record online) := by
  have htask (other : Ticket) :
      (s.withActivation t purpose record online).task? other =
        if other = t then some (.activating s.instances.length purpose) else s.task? other :=
    task?_await _ _ _ _
  refine ⟨fun n hn => ?_, fun other id l ho => ?_, fun other ref p ho => ?_⟩
  · have hne : Ticket.warmUp n ≠ t := by
      intro he
      have hlt := ha.lt_warmUps hd.1 n he.symm
      have hle : s.warmUps ≤ n := hn
      omega
    rw [htask, if_neg hne]
    exact ha.free n hn
  · rw [htask] at ho
    split at ho
    · cases ho
    · exact ha.reading other id l ho
  · rw [htask] at ho
    rw [instance?_withActivation]
    split at ho
    · cases ho
      rw [if_pos rfl]
      refine ⟨_, rfl, fun l hl => ?_⟩
      subst hl
      rw [id_instanceOf]
      exact ha.reading t record.id l hd.1
    · obtain ⟨j, hj, hl⟩ := ha.activating other ref p ho
      have hlt := (List.getElem?_eq_some_iff.mp hj).1
      rw [if_neg (Nat.ne_of_lt hlt)]
      exact ⟨j, hj, hl⟩

theorem Aligned.turn {s s' : Service} {e : Event} (ha : Aligned s) (h : Turn s e s') :
    Aligned s' := by
  cases h with
  | quiet hs hg hu h => exact ha.quiet h
  | updated he hu hi h => exact (ha.withUpdate hi _).quiet h
  | dropped he h => exact (ha.close _).quiet h
  | begun hd hs h => exact (ha.withActivation hd).quiet h
  | renewed hd hs h => exact (((ha.withActivation hd).close _).withStore _ _).quiet h
  | installed he ht hi hc hs h => exact ((ha.close _).withStore _ _).quiet h
  | found he ht hi hc hn hs h => exact ((ha.close _).withStore _ _).quiet h
  | superseded he ht hi hc hs h => exact (ha.close _).quiet h

/-- What holds at the start, and after every event if it held before, holds after every run. -/
theorem run_induct {settings : Settings} {P : List Moment → Service → Prop} (es : List Event)
    (h0 : P [] (start settings))
    (hs : ∀ ms s e, e ∈ es → Aligned s → P ms s → P (ms ++ [⟨s, e⟩]) (s.step e).1) :
    P ((start settings).moments es) ((start settings).run es) := by
  suffices h : Aligned ((start settings).run es) ∧
      P ((start settings).moments es) ((start settings).run es) from h.2
  -- from the last event back, as the property is about all moments so far
  induction es using List.reverseRecOn with
  | nil => exact ⟨aligned_start settings, h0⟩
  | append_singleton es e ih =>
    have hold := ih fun ms s e he => hs ms s e (List.mem_append_left _ he)
    rw [run_concat, moments_append]
    exact ⟨hold.1.turn (turn_step hold.1 e), hs _ _ e (by simp) hold.1 hold.2⟩

theorem aligned_run (settings : Settings) (es : List Event) :
    Aligned ((start settings).run es) :=
  run_induct (P := fun _ s => Aligned s) es (aligned_start settings)
    fun _ _ e _ ha _ => ha.turn (turn_step ha e)

theorem aligned_of_mem_moments {settings : Settings} {es : List Event} {m : Moment}
    (hm : m ∈ (start settings).moments es) : Aligned m.before := by
  refine run_induct (P := fun ms _ => ∀ m ∈ ms, Aligned m.before) es
    (fun _ h => absurd h List.not_mem_nil) ?_ m hm
  intro ms s e _ ha ih m hm
  rcases List.mem_append.mp hm with hm | hm
  · exact ih m hm
  · rw [List.mem_singleton.mp hm]
    exact ha

/-- The edges at hand after something was put there, if anything. -/
def edgesWith (m : Cache.Recent EdgeId EdgeRef) : Option Store → Cache.Recent EdgeId EdgeRef
  | none => m
  | some σ => m.put σ.id σ.ref

/-- What an event puts into the cache is all that it does there, up to uses. -/
theorem used_step {s : Service} (ha : Aligned s) (e : Event) :
    Used (edgesWith s.cache.edges (s.stored? e)) (s.step e).1.cache.edges := by
  cases turn_step ha e with
  | quiet hs hg hu h => exact hs ▸ h.edges
  | updated he hu hi h => exact he ▸ h.edges
  | dropped he h => exact he ▸ h.edges
  | begun hd hs h => exact hs ▸ h.edges
  | renewed hd hs h => exact hs ▸ h.edges
  | installed he ht hi hc hs h => exact hs ▸ h.edges
  | found he ht hi hc hn hs h => exact hs ▸ h.edges
  | superseded he ht hi hc hs h => exact hs ▸ h.edges

end EdgeFleet.Service
