import EdgeFleet.Service.Step
import Mathlib.Logic.Relation

namespace EdgeFleet

namespace Cache

/-- A map and what some uses make of it. -/
def Recent.Used {κ α : Type} [DecidableEq κ] : Recent κ α → Recent κ α → Prop :=
  Relation.ReflTransGen fun m m' => ∃ k, m' = m.touch k

theorem Recent.Used.peek?_eq {κ α : Type} [DecidableEq κ] {m m' : Recent κ α} (h : Used m m')
    (k : κ) : m'.peek? k = m.peek? k := by
  induction h with
  | refl => rfl
  | tail _ hs ih =>
    obtain ⟨j, rfl⟩ := hs
    rw [peek?_touch, ih]

theorem Recent.Used.capacity_eq {κ α : Type} [DecidableEq κ] {m m' : Recent κ α}
    (h : Used m m') : m'.capacity = m.capacity := by
  induction h with
  | refl => rfl
  | tail _ hs ih =>
    obtain ⟨j, rfl⟩ := hs
    rw [capacity_touch, ih]

theorem Recent.used_touch {κ α : Type} [DecidableEq κ] (m : Recent κ α) (k : κ) :
    Used m (m.touch k) := .single ⟨k, rfl⟩

variable {ε : Type}

theorem edges_upsertUser (c : Cache ε) (id : UserId) (name : String)
    (grants : List (EdgeId × Role)) : (c.upsertUser id name grants).1.edges = c.edges := by
  cases h : c.users.peek? id <;> simp [upsertUser, getUser, Recent.get, h]

theorem edges_putEdgeIfAbsent_of_some (c : Cache ε) {id : EdgeId} {there : ε}
    (h : c.edges.peek? id = some there) (e : ε) :
    (c.putEdgeIfAbsent id e).1.edges = c.edges.touch id := by
  simp [putEdgeIfAbsent, getEdge, Recent.get, h]

theorem putEdgeIfAbsent_of_none (c : Cache ε) {id : EdgeId} (h : c.edges.peek? id = none) (e : ε) :
    (c.putEdgeIfAbsent id e).1 = c.putEdge id e := by
  have ht : c.edges.touch id = c.edges := by simp [Recent.touch, h]
  simp [putEdgeIfAbsent, getEdge, Recent.get, h, ht]

end Cache

namespace Service

open Cache.Recent (Used)

/-- Whether a task waits without an instance of its own, and reads the edge it is about. -/
def Task.Open : Task → Prop
  | .activating .. => False
  | .reading id (.login l) => id = l.current.id
  | _ => True

/-- All that refreshes share is kept, up to uses of edges, and of the tasks only one goes on, without
an instance of its own. -/
structure Keeps (t : Ticket) (s s' : Service) : Prop where
  instances : s'.instances = s.instances
  generations : s'.generations = s.generations
  edges : Used s.cache.edges s'.cache.edges
  warmUps : s'.warmUps = s.warmUps
  others : ∀ other, other ≠ t → s'.task? other = s.task? other
  own : ∀ task, s'.task? t = some task → task.Open

theorem Keeps.of_used {t : Ticket} {s s' : Service} (cache : Cache EdgeRef)
    (hu : Used s.cache.edges cache.edges) (h : Keeps t { s with cache } s') : Keeps t s s' :=
  ⟨h.instances, h.generations, hu.trans h.edges, h.warmUps, h.others, h.own⟩

theorem keeps_finish (s : Service) (t : Ticket) (answer : Answer) :
    Keeps t s (s.finish t answer).1 := by
  refine ⟨rfl, rfl, .refl, rfl, fun other ho => ?_, fun task ht => ?_⟩
  · simp only [finish, task?_close, if_neg ho]
  · simp [finish, task?_close] at ht

theorem keeps_await (s : Service) (t : Ticket) {task : Task} (h : task.Open) :
    Keeps t s (s.await t task) := by
  refine ⟨rfl, rfl, .refl, rfl, fun other ho => ?_, fun task' ht => ?_⟩
  · simp only [task?_await, if_neg ho]
  · simp only [task?_await, if_true, Option.some.injEq] at ht
    exact ht ▸ h

theorem keeps_commit (s : Service) (t : Ticket) (user : UserInfo)
    (granted : List (EdgeId × Role)) : Keeps t s (s.commit t user granted).1 := by
  apply Keeps.of_used (s.cache.upsertUser user.id user.name granted).1
  · rw [Cache.edges_upsertUser]
    exact .refl
  · exact keeps_finish _ t _

/-- A login uses the edges at hand and changes nothing else that is shared. -/
theorem keeps_resolveGrants (s : Service) (t : Ticket) (user : UserInfo)
    (granted : List (EdgeId × Role)) (grants : List DeviceGrant) :
    Keeps t s (s.resolveGrants t user granted grants).1 := by
  induction grants generalizing s granted with
  | nil => exact keeps_commit s t user granted
  | cons g rest ih =>
    have hu := Cache.Recent.used_touch s.cache.edges g.id
    cases hp : s.cache.edges.peek? g.id with
    | none =>
      simp only [resolveGrants, Cache.getEdge, Cache.Recent.get, hp]
      exact .of_used { s.cache with edges := s.cache.edges.touch g.id } hu (keeps_await _ t rfl)
    | some ref =>
      simp only [resolveGrants, Cache.getEdge, Cache.Recent.get, hp, keepFound]
      have hp' : (s.cache.edges.touch g.id).peek? g.id = some ref := by
        rw [Cache.Recent.peek?_touch, hp]
      refine .of_used { s.cache with edges := s.cache.edges.touch g.id } hu (.of_used _ ?_ (ih _ _))
      rw [Cache.edges_putEdgeIfAbsent_of_some _ hp']
      exact Cache.Recent.used_touch _ _

theorem keeps_resume_none (s : Service) (t : Ticket) (purpose : Purpose) :
    Keeps t s (s.resume t none purpose).1 := by
  cases purpose with
  | answer => exact keeps_finish s t _
  | warmUp =>
    have h := keeps_finish { s with permits := s.permits + 1 } t .done
    exact ⟨h.instances, h.generations, h.edges, h.warmUps, h.others, h.own⟩
  | login l => exact keeps_resolveGrants s t l.user _ l.remaining

theorem keeps_resume_there (s : Service) (t : Ticket) (ref : EdgeRef) (purpose : Purpose)
    (h : ∀ l, purpose = .login l → (s.cache.edges.peek? l.current.id).isSome) :
    Keeps t s (s.resume t (some ref) purpose).1 := by
  cases purpose with
  | answer => exact keeps_finish s t _
  | warmUp => exact keeps_resume_none s t .warmUp
  | login l =>
    obtain ⟨there, hp⟩ := Option.isSome_iff_exists.mp (h l rfl)
    refine .of_used (s.cache.putEdgeIfAbsent l.current.id ref).1 ?_
      (keeps_resolveGrants _ t l.user _ l.remaining)
    rw [Cache.edges_putEdgeIfAbsent_of_some _ hp]
    exact Cache.Recent.used_touch _ _

theorem keeps_resume_absent (s : Service) (t : Ticket) (ref : EdgeRef) (l : Login)
    (h : s.cache.edges.peek? l.current.id = none) :
    Keeps t { s with cache := s.cache.putEdge l.current.id ref }
      (s.resume t (some ref) (.login l)).1 := by
  simp only [resume, keepFound, Cache.putEdgeIfAbsent_of_none _ h]
  exact keeps_resolveGrants _ t l.user _ l.remaining

/-- An instance whose generation is current is put into the cache, and nothing else is. -/
theorem keeps_install_current (s : Service) (t : Ticket) {ref : EdgeRef} {i : Instance}
    (hi : s.instance? ref = some i) (hc : s.isCurrent i = true) (purpose : Purpose)
    (ha : ∀ l, purpose = .login l → i.edge.id = l.current.id) :
    Keeps t { s with cache := s.cache.putEdge i.edge.id ref } (s.install t ref purpose).1 := by
  rw [isCurrent] at hc
  simp only [install, hi, Generations.installIfCurrent, hc, if_true]
  apply keeps_resume_there
  intro l hl
  rw [← ha l hl]
  simp [Cache.putEdge, Cache.Recent.peek?_put_self]

theorem install_superseded (s : Service) (t : Ticket) {ref : EdgeRef} {i : Instance}
    (hi : s.instance? ref = some i) (hc : s.isCurrent i = false) (purpose : Purpose) :
    s.install t ref purpose = s.resume t (some ref) purpose := by
  rw [isCurrent] at hc
  simp only [install, hi, Generations.installIfCurrent, hc, Bool.false_eq_true, if_false]

end Service

end EdgeFleet
