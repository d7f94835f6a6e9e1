import EdgeFleet.Proofs.Service.Advance
import EdgeFleet.Proofs.Service.Ledger

namespace EdgeFleet.Service

open Cache.Recent (Used)

/-- A user has the account and all that a session grants, with the role that it lists last. -/
structure Shows (c : Cache EdgeRef) (info : SessionInfo) (ref : AccountRef) : Prop where
  known : c.users.peek? info.user.id = some ref
  account : ∃ user, c.account? ref = some user ∧ user.id = info.user.id ∧
    user.name = info.user.name ∧ ∀ g ∈ info.devices, ∃ last,
      (info.devices.filter (·.id = g.id)).getLast? = some last ∧
        user.role? g.id = some (Role.ofText last.role)

/-- Every user at hand has an account. -/
def Accounted (c : Cache EdgeRef) : Prop :=
  ∀ uid ref, c.users.peek? uid = some ref → ∃ user, c.account? ref = some user ∧ user.id = uid

section Accounts

variable {c c' : Cache EdgeRef} {info : SessionInfo} {ref : AccountRef}

theorem Accounted.used (h : Accounted c) (hu : Used c.users c'.users)
    (ha : c'.accounts = c.accounts) : Accounted c' := by
  intro uid ref hp
  rw [hu.peek?_eq] at hp
  rw [Cache.account?, ha]
  exact h uid ref hp

/-- The account that is stored is the one at hand or a new one, with the grants of the session. -/
theorem Accounted.account_stored (h : Accounted c) (hs : Stored c c' info ref) :
    ∃ user : User, user.id = info.user.id ∧
      c'.account? ref = some (user.merge info.user.name (grantsOf info.devices)) := by
  cases hs with
  | again there users accounts =>
    obtain ⟨user, ha, hid⟩ := h _ _ there
    rw [Cache.account?] at ha
    refine ⟨user, hid, ?_⟩
    rw [Cache.account?, accounts, List.getElem?_modify_eq, ha]
    rfl
  | first absent fresh users accounts =>
    refine ⟨⟨info.user.id, "", []⟩, rfl, ?_⟩
    rw [Cache.account?, accounts, fresh, List.getElem?_concat_length]
    rfl

theorem id_merge (user : User) (name : String) (grants : List (EdgeId × Role)) :
    (user.merge name grants).id = user.id := User.id_grantAll _ _

theorem Accounted.shows (h : Accounted c) (hs : Stored c c' info ref) : Shows c' info ref := by
  obtain ⟨user, hid, ha⟩ := h.account_stored hs
  constructor
  · cases hs with
    | again there users accounts => rw [users.peek?_eq, there]
    | first absent fresh users accounts => rw [users, Cache.Recent.peek?_put_self]
  · refine ⟨_, ha, (id_merge _ _ _).trans hid, User.name_grantAll _ _, fun g hg => ?_⟩
    have hne : info.devices.filter (·.id = g.id) ≠ [] :=
      List.ne_nil_of_mem (List.mem_filter.mpr ⟨hg, decide_eq_true rfl⟩)
    have hlast := List.getLast?_eq_some_getLast hne
    refine ⟨_, hlast, ?_⟩
    rw [User.merge, User.role?_grantAll, last_grantsOf, hlast]
    rfl

theorem Accounted.stored (h : Accounted c) (hs : Stored c c' info ref) : Accounted c' := by
  intro uid ref' hp
  by_cases hid : uid = info.user.id
  · subst hid
    rw [(h.shows hs).known] at hp
    cases hp
    obtain ⟨user, ha, hu, -⟩ := (h.shows hs).account
    exact ⟨user, ha, hu⟩
  · cases hs with
    | again there users accounts =>
      rw [users.peek?_eq] at hp
      obtain ⟨user, ha, hu⟩ := h uid ref' hp
      have hne : ref ≠ ref' := by
        rintro rfl
        obtain ⟨user', ha', hu'⟩ := h _ _ there
        rw [ha] at ha'
        cases ha'
        exact hid (hu.symm.trans hu')
      rw [Cache.account?] at ha
      refine ⟨user, ?_, hu⟩
      rw [Cache.account?, accounts, List.getElem?_modify_ne _ _ hne, ha]
    | first absent fresh users accounts =>
      rw [users] at hp
      obtain ⟨user, ha, hu⟩ := h uid ref' (Cache.Recent.peek?_of_put_of_ne _ hid hp)
      rw [Cache.account?] at ha
      refine ⟨user, ?_, hu⟩
      have hlt := (List.getElem?_eq_some_iff.mp ha).1
      rw [Cache.account?, accounts, List.getElem?_append_left hlt, ha]

end Accounts

/-- What holds in every run: of the tasks, of the logins among them, and of the accounts. -/
structure Sound (s : Service) : Prop where
  aligned : Aligned s
  suited : Suited s
  follows : ∃ sessions : Ticket → Option SessionInfo,
    ∀ t task, s.task? t = some task → Follows (sessions t) task
  accounted : Accounted s.cache

theorem Sound.step {s : Service} (h : Sound s) (e : Event) : Sound (s.step e).1 := by
  obtain ⟨sessions, hf⟩ := h.follows
  -- a task that is new follows the session that its event may have confirmed
  have hfollows (ht : ∀ t task, (s.step e).1.task? t = some task →
      s.task? t = some task ∨ Follows (sessionsAfter sessions s e t) task) (t : Ticket)
      (task : Task) (htask : (s.step e).1.task? t = some task) :
      Follows (sessionsAfter sessions s e t) task := by
    rcases ht t task htask with hold | hnew
    · exact follows_sessionsAfter hold (hf t task hold) e
    · exact hnew
  refine ⟨h.aligned.turn (turn_step h.aligned e), (move_step h.aligned h.suited e).suited h.suited,
    ⟨sessionsAfter sessions s e, ?_⟩, ?_⟩
  · cases course_step hf e with
    | goesOn users accounts tasks actions => exact hfollows tasks
    | commits session stored tasks actions => exact hfollows tasks
  · cases course_step hf e with
    | goesOn users accounts tasks actions => exact h.accounted.used users accounts
    | commits session stored tasks actions => exact h.accounted.stored stored

theorem Sound.run {s : Service} (h : Sound s) (es : List Event) : Sound (s.run es) := by
  induction es generalizing s with
  | nil => exact h
  | cons e rest ih => exact ih (h.step e)

theorem sound_run (settings : Settings) (es : List Event) : Sound ((start settings).run es) := by
  refine Sound.run ⟨aligned_start settings, suited_start settings, ⟨fun _ => none, ?_⟩, ?_⟩ es
  · intro t task ht
    cases ht
  · intro uid ref hp
    cases hp

end EdgeFleet.Service
