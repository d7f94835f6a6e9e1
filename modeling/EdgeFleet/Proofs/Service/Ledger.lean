import EdgeFleet.Proofs.Service.Login

/-! The users against the sessions that were confirmed. A ledger notes the session of each login when it is
confirmed, and enters it when the login ends well. -/
namespace EdgeFleet.Service

open Cache.Recent (Used)

/-- The sessions confirmed for logins, and the sessions of the logins that have ended well, in
order. -/
structure Ledger where
  sessions : Ticket → Option SessionInfo := fun _ => none
  committed : List SessionInfo := []

/-- A login that ends well is entered with its session. -/
def Ledger.enter (l : Ledger) : Action → Ledger
  | .finish t (.login (.ok _)) => { l with committed := l.committed ++ (l.sessions t).toList }
  | _ => l

/-- The ledger after an event, which may confirm a session and may end a login. -/
def Ledger.after (l : Ledger) (m : Moment) : Ledger :=
  (m.before.step m.event).2.foldl Ledger.enter
    { l with sessions := sessionsAfter l.sessions m.before m.event }

def ledger (ms : List Moment) : Ledger := ms.foldl Ledger.after {}

/-- The entries of a user. -/
def entriesOf (uid : UserId) (infos : List SessionInfo) : List SessionInfo :=
  infos.filter (·.user.id = uid)

/-- The last entry for an edge in the last session that lists the edge. -/
def lastGrant? (infos : List SessionInfo) (edge : EdgeId) : Option DeviceGrant :=
  (infos.filter fun info => info.devices.any (·.id = edge)).getLast?.bind fun info =>
    (info.devices.filter (·.id = edge)).getLast?

/-- The user whose sessions have been stored one after the other. -/
def replay (uid : UserId) (infos : List SessionInfo) : User :=
  (entriesOf uid infos).foldl (fun u info => u.merge info.user.name (grantsOf info.devices))
    ⟨uid, "", []⟩

theorem entriesOf_concat_self (infos : List SessionInfo) (info : SessionInfo) :
    entriesOf info.user.id (infos ++ [info]) = entriesOf info.user.id infos ++ [info] := by
  simp [entriesOf]

theorem entriesOf_concat_of_ne {uid : UserId} {info : SessionInfo} (h : info.user.id ≠ uid)
    (infos : List SessionInfo) : entriesOf uid (infos ++ [info]) = entriesOf uid infos := by
  simp [entriesOf, h]

theorem replay_concat_self (infos : List SessionInfo) (info : SessionInfo) :
    replay info.user.id (infos ++ [info]) =
      (replay info.user.id infos).merge info.user.name (grantsOf info.devices) := by
  simp only [replay, entriesOf_concat_self, List.foldl_append, List.foldl_cons, List.foldl_nil]

theorem replay_concat_of_ne {uid : UserId} {info : SessionInfo} (h : info.user.id ≠ uid)
    (infos : List SessionInfo) : replay uid (infos ++ [info]) = replay uid infos := by
  simp only [replay, entriesOf_concat_of_ne h]

theorem id_replay (uid : UserId) (infos : List SessionInfo) : (replay uid infos).id = uid := by
  induction infos using List.reverseRecOn with
  | nil => rfl
  | append_singleton infos info ih =>
    by_cases h : info.user.id = uid
    · subst h
      rw [replay_concat_self, User.merge, User.id_grantAll, User.rename, ih]
    · rw [replay_concat_of_ne h, ih]

theorem name_replay {uid : UserId} {infos : List SessionInfo} {info : SessionInfo}
    (h : (entriesOf uid infos).getLast? = some info) : (replay uid infos).name = info.user.name := by
  induction infos using List.reverseRecOn with
  | nil => cases h
  | append_singleton infos last ih =>
    by_cases hid : last.user.id = uid
    · subst hid
      rw [entriesOf_concat_self, List.getLast?_concat] at h
      rw [replay_concat_self, User.merge, User.name_grantAll, User.rename, Option.some.inj h]
    · rw [entriesOf_concat_of_ne hid] at h
      rw [replay_concat_of_ne hid]
      exact ih h

theorem lastGrant?_concat (infos : List SessionInfo) (info : SessionInfo) (edge : EdgeId) :
    lastGrant? (infos ++ [info]) edge =
      (info.devices.filter (·.id = edge)).getLast?.or (lastGrant? infos edge) := by
  cases hl : (info.devices.filter (·.id = edge)).getLast? with
  | none =>
    have hnone : ¬ info.devices.any (·.id = edge) = true := by
      simpa [List.getLast?_eq_none_iff, List.filter_eq_nil_iff] using hl
    simp only [lastGrant?, List.filter_append, List.filter_cons, hnone, Bool.false_eq_true, if_false,
      List.filter_nil, List.append_nil, Option.none_or]
  | some g =>
    have hg := List.mem_filter.mp (List.mem_of_getLast? hl)
    have hany : info.devices.any (·.id = edge) = true := List.any_eq_true.mpr ⟨g, hg⟩
    simp only [lastGrant?, List.filter_append, List.filter_cons, hany, if_true, List.filter_nil,
      List.getLast?_concat, Option.bind_some, hl, Option.some_or]

theorem last_grantsOf (devices : List DeviceGrant) (edge : EdgeId) :
    ((grantsOf devices).filter (·.1 = edge)).getLast?.map (·.2) =
      (devices.filter (·.id = edge)).getLast?.map fun g => Role.ofText g.role := by
  simp only [grantsOf, List.filter_map, List.getLast?_map, Option.map_map, Function.comp_def]

/-- The role on an edge is the one that the last session grants that lists the edge. -/
theorem role?_replay (uid : UserId) (infos : List SessionInfo) (edge : EdgeId) :
    (replay uid infos).role? edge =
      (lastGrant? (entriesOf uid infos) edge).map fun g => Role.ofText g.role := by
  induction infos using List.reverseRecOn with
  | nil => rfl
  | append_singleton infos info ih =>
    by_cases h : info.user.id = uid
    · subst h
      rw [replay_concat_self, User.merge, User.role?_grantAll, last_grantsOf, entriesOf_concat_self,
        lastGrant?_concat]
      cases (info.devices.filter (·.id = edge)).getLast? with
      | none => exact ih
      | some g => rfl
    · rw [replay_concat_of_ne h, entriesOf_concat_of_ne h, ih]

theorem ledger_concat (ms : List Moment) (m : Moment) :
    ledger (ms ++ [m]) = (ledger ms).after m := by
  simp only [ledger, List.foldl_append, List.foldl_cons, List.foldl_nil]

theorem foldl_enter {actions : List Action}
    (h : ∀ t ref, .finish t (.login (.ok ref)) ∉ actions) (l : Ledger) :
    actions.foldl Ledger.enter l = l := by
  induction actions with
  | nil => rfl
  | cons a rest ih =>
    have ha : l.enter a = l := by
      unfold Ledger.enter
      split
      · exact absurd List.mem_cons_self (h _ _)
      · rfl
    rw [List.foldl_cons, ha]
    exact ih fun t ref hm => h t ref (List.mem_cons_of_mem a hm)

theorem Ledger.after_of_not (l : Ledger) {s : Service} {e : Event}
    (h : ∀ t ref, .finish t (.login (.ok ref)) ∉ (s.step e).2) :
    l.after ⟨s, e⟩ = { l with sessions := sessionsAfter l.sessions s e } := foldl_enter h _

theorem Ledger.after_of_commit (l : Ledger) {s : Service} {e : Event} {t : Ticket}
    {info : SessionInfo} {ref : AccountRef} (hi : sessionsAfter l.sessions s e t = some info)
    (h : (s.step e).2 = [.finish t (.login (.ok ref))]) :
    l.after ⟨s, e⟩ = ⟨sessionsAfter l.sessions s e, l.committed ++ [info]⟩ := by
  simp only [Ledger.after, h, List.foldl_cons, List.foldl_nil, Ledger.enter, hi, Option.toList_some]

/-- The users show what the entries grant. -/
structure Books (infos : List SessionInfo) (c : Cache EdgeRef) : Prop where
  unbounded : c.users.capacity = none
  known : ∀ uid, (∃ ref, c.users.peek? uid = some ref) ↔ ∃ info ∈ infos, info.user.id = uid
  account : ∀ uid ref, c.users.peek? uid = some ref → c.account? ref = some (replay uid infos)

theorem Books.used {infos : List SessionInfo} {c c' : Cache EdgeRef} (hb : Books infos c)
    (hu : Used c.users c'.users) (ha : c'.accounts = c.accounts) : Books infos c' := by
  refine ⟨hu.capacity_eq.trans hb.unbounded, ?_, ?_⟩
  · simpa only [hu.peek?_eq] using hb.known
  · simpa only [hu.peek?_eq, Cache.account?, ha] using hb.account

/-- A user at hand has been stored before, and the accounts of others have other numbers. -/
theorem Books.uid_unique {infos : List SessionInfo} {c : Cache EdgeRef} (hb : Books infos c)
    {uid other : UserId} {ref : AccountRef} (h : c.users.peek? uid = some ref)
    (ho : c.users.peek? other = some ref) : uid = other := by
  have ha := (hb.account uid ref h).symm.trans (hb.account other ref ho)
  rw [← id_replay uid infos, Option.some.inj ha, id_replay]

theorem Books.peek?_stored {infos : List SessionInfo} {c c' : Cache EdgeRef} (hb : Books infos c)
    {info : SessionInfo} {ref : AccountRef} (hs : Stored c c' info ref) (uid : UserId) :
    c'.users.peek? uid = if uid = info.user.id then some ref else c.users.peek? uid := by
  by_cases h : uid = info.user.id
  · subst h
    rw [if_pos rfl]
    cases hs with
    | again there users accounts => rw [users.peek?_eq, there]
    | first absent fresh users accounts => rw [users, Cache.Recent.peek?_put_self]
  · rw [if_neg h]
    cases hs with
    | again there users accounts => rw [users.peek?_eq]
    | first absent fresh users accounts => rw [users, Cache.Recent.peek?_put_of_ne _ hb.unbounded h]

theorem Books.account_stored {infos : List SessionInfo} {c c' : Cache EdgeRef} (hb : Books infos c)
    {info : SessionInfo} {ref : AccountRef} (hs : Stored c c' info ref) :
    c'.account? ref = some (replay info.user.id (infos ++ [info])) := by
  rw [replay_concat_self]
  cases hs with
  | again there users accounts =>
    have ha := hb.account _ _ there
    rw [Cache.account?] at ha
    rw [Cache.account?, accounts, List.getElem?_modify_eq, ha]
    rfl
  | first absent fresh users accounts =>
    have hnone : replay info.user.id infos = ⟨info.user.id, "", []⟩ := by
      have hempty : entriesOf info.user.id infos = [] := by
        refine List.filter_eq_nil_iff.mpr fun other ho he => ?_
        obtain ⟨ref', hr⟩ := (hb.known info.user.id).mpr ⟨other, ho, of_decide_eq_true he⟩
        rw [absent] at hr
        cases hr
      rw [replay, hempty, List.foldl_nil]
    rw [Cache.account?, accounts, fresh, List.getElem?_concat_length, hnone]
    rfl

theorem Books.account_of_ne {infos : List SessionInfo} {c c' : Cache EdgeRef} (hb : Books infos c)
    {info : SessionInfo} {ref : AccountRef} (hs : Stored c c' info ref) {uid : UserId}
    {ref' : AccountRef} (h : uid ≠ info.user.id) (hp : c.users.peek? uid = some ref') :
    c'.account? ref' = some (replay uid (infos ++ [info])) := by
  have ha := hb.account uid ref' hp
  rw [replay_concat_of_ne fun he => h he.symm, ← ha]
  cases hs with
  | again there users accounts =>
    have hne : ref ≠ ref' := by
      intro he
      subst he
      exact h (hb.uid_unique hp there)
    rw [Cache.account?, accounts, List.getElem?_modify_ne _ _ hne, Cache.account?]
  | first absent fresh users accounts =>
    rw [Cache.account?] at ha
    have hlt := (List.getElem?_eq_some_iff.mp ha).1
    rw [Cache.account?, accounts, List.getElem?_append_left hlt, Cache.account?]

theorem Books.stored {infos : List SessionInfo} {c c' : Cache EdgeRef} (hb : Books infos c)
    {info : SessionInfo} {ref : AccountRef} (hs : Stored c c' info ref) :
    Books (infos ++ [info]) c' := by
  refine ⟨?_, fun uid => ?_, fun uid ref' hp => ?_⟩
  · cases hs with
    | again there users accounts => exact users.capacity_eq.trans hb.unbounded
    | first absent fresh users accounts => exact users ▸ hb.unbounded
  · rw [hb.peek?_stored hs]
    by_cases h : uid = info.user.id
    · subst h
      rw [if_pos rfl]
      exact iff_of_true ⟨ref, rfl⟩ ⟨info, by simp, rfl⟩
    · rw [if_neg h, hb.known]
      have hne : ¬ info.user.id = uid := fun he => h he.symm
      simp [or_and_right, exists_or, hne]
  · rw [hb.peek?_stored hs] at hp
    by_cases h : uid = info.user.id
    · subst h
      rw [if_pos rfl] at hp
      rw [← Option.some.inj hp]
      exact hb.account_stored hs
    · rw [if_neg h] at hp
      exact hb.account_of_ne hs h hp

/-- The logins under way follow the sessions of the ledger, and the users show its entries. -/
structure Kept (l : Ledger) (s : Service) : Prop where
  follows : ∀ t task, s.task? t = some task → Follows (l.sessions t) task
  books : Books l.committed s.cache

theorem follows_sessionsAfter {sessions : Ticket → Option SessionInfo} {s : Service} {t : Ticket}
    {task : Task} (ht : s.task? t = some task) (h : Follows (sessions t) task) (e : Event) :
    Follows (sessionsAfter sessions s e t) task := by
  unfold sessionsAfter
  split
  · rename_i info
    split
    · rename_i hc
      split
      · rename_i he
        rw [he, hc] at ht
        cases ht
        trivial
      · exact h
    · exact h
  · exact h

theorem Kept.step {l : Ledger} {s : Service} (hk : Kept l s) (e : Event) :
    Kept (l.after ⟨s, e⟩) (s.step e).1 := by
  have hfollows (ht : ∀ t task, (s.step e).1.task? t = some task →
      s.task? t = some task ∨ Follows (sessionsAfter l.sessions s e t) task) (t : Ticket)
      (task : Task) (h : (s.step e).1.task? t = some task) :
      Follows (sessionsAfter l.sessions s e t) task := by
    rcases ht t task h with h | h
    · exact follows_sessionsAfter h (hk.follows t task h) e
    · exact h
  cases course_step hk.follows e with
  | goesOn users accounts tasks actions =>
    rw [l.after_of_not actions]
    exact ⟨hfollows tasks, hk.books.used users accounts⟩
  | commits session stored tasks actions =>
    rw [l.after_of_commit session actions]
    exact ⟨hfollows tasks, hk.books.stored stored⟩

theorem kept_run {settings : Settings} (hcap : settings.userCapacity = none) (es : List Event) :
    Kept (ledger ((start settings).moments es)) ((start settings).run es) := by
  refine run_induct (P := fun ms s => Kept (ledger ms) s) es ⟨?_, hcap, ?_, ?_⟩ ?_
  · intro t task ht
    cases ht
  · intro uid
    constructor
    · rintro ⟨ref, h⟩
      cases h
    · rintro ⟨info, h, -⟩
      cases h
  · intro uid ref hp
    cases hp
  · intro ms s e _ _ hk
    rw [ledger_concat]
    exact hk.step e

/-- The number of a user's account never changes. -/
theorem Kept.peek?_step {l : Ledger} {s : Service} (hk : Kept l s) {uid : UserId}
    {ref : AccountRef} (hp : s.cache.users.peek? uid = some ref) (e : Event) :
    (s.step e).1.cache.users.peek? uid = some ref := by
  cases course_step hk.follows e with
  | goesOn users accounts tasks actions => rw [users.peek?_eq, hp]
  | @commits t info ref' session stored tasks actions =>
    rw [hk.books.peek?_stored stored]
    by_cases h : uid = info.user.id
    · subst h
      rw [if_pos rfl]
      cases stored with
      | again there users accounts => rw [← hp, there]
      | first absent fresh users accounts =>
        rw [absent] at hp
        cases hp
    · rw [if_neg h, hp]

/-- What the users show at some time, and what becomes of them with the next event. -/
structure Faithful (l : Ledger) (s : Service) : Prop where
  /-- A user is at hand just if one of the entries is the user's. -/
  known : ∀ uid, (∃ ref, s.cache.users.peek? uid = some ref) ↔
    ∃ info ∈ l.committed, info.user.id = uid
  /-- A user at hand has the name of the last entry and the roles that the entries grant. -/
  account : ∀ uid ref, s.cache.users.peek? uid = some ref →
    ∃ user last, s.cache.account? ref = some user ∧ user.id = uid ∧
      (entriesOf uid l.committed).getLast? = some last ∧ user.name = last.user.name ∧
      ∀ edge role, user.role? edge = some role ↔
        ∃ g, lastGrant? (entriesOf uid l.committed) edge = some g ∧
          (Text.lowerAscii (Text.trim g.role) = role.name ∨
            role = .guest ∧ ∀ other : Role, Text.lowerAscii (Text.trim g.role) ≠ other.name)
  /-- Who looks a user up gets the account at hand. -/
  found : ∀ n uid, s.task? (.call n) = none →
    (s.step (.findUser n uid)).2 = [.finish (.call n) (.user (s.cache.users.peek? uid))]
  /-- A login that ends well is entered with its session, and gets the account of its user. -/
  entered : ∀ e t ref, .finish t (.login (.ok ref)) ∈ (s.step e).2 →
    ∃ info, (l.after ⟨s, e⟩).sessions t = some info ∧
      (l.after ⟨s, e⟩).committed = l.committed ++ [info] ∧
      (s.step e).1.cache.users.peek? info.user.id = some ref
  /-- No other event changes an account or who is at hand. -/
  unchanged : ∀ e, (∀ t ref, .finish t (.login (.ok ref)) ∉ (s.step e).2) →
    (l.after ⟨s, e⟩).committed = l.committed ∧ (s.step e).1.cache.accounts = s.cache.accounts ∧
      ∀ uid, (s.step e).1.cache.users.peek? uid = s.cache.users.peek? uid

theorem Kept.faithful {l : Ledger} {s : Service} (hk : Kept l s) : Faithful l s := by
  refine ⟨hk.books.known, fun uid ref hp => ?_, fun n uid hn => ?_, fun e t ref hm => ?_,
    fun e hno => ?_⟩
  · obtain ⟨info, hi, hid⟩ := (hk.books.known uid).mp ⟨ref, hp⟩
    have hne : entriesOf uid l.committed ≠ [] := by
      have hm : info ∈ entriesOf uid l.committed := List.mem_filter.mpr ⟨hi, by simpa using hid⟩
      exact List.ne_nil_of_mem hm
    have hlast := List.getLast?_eq_some_getLast hne
    refine ⟨replay uid l.committed, _, hk.books.account uid ref hp, id_replay _ _, hlast,
      name_replay hlast, fun edge role => ?_⟩
    simp only [role?_replay, Option.map_eq_some_iff, Role.ofText_eq_iff]
  · simp [Service.step, whenFree, hn, findUser, Cache.getUser, Cache.Recent.get, finish]
  · cases course_step hk.follows e with
    | goesOn users accounts tasks actions => exact absurd hm (actions t ref)
    | @commits t' info ref' session stored tasks actions =>
      rw [actions, List.mem_singleton] at hm
      cases hm
      rw [l.after_of_commit session actions]
      refine ⟨info, session, rfl, ?_⟩
      rw [hk.books.peek?_stored stored, if_pos rfl]
  · cases course_step hk.follows e with
    | goesOn users accounts tasks actions =>
      rw [l.after_of_not actions]
      exact ⟨rfl, accounts, users.peek?_eq⟩
    | @commits t info ref session stored tasks actions =>
      refine absurd ?_ (hno t ref)
      rw [actions]
      exact List.mem_cons_self

/-- Without a bound on the users they show what the confirmed sessions of the logins that ended well
grant, and a user at hand keeps the account. -/
theorem faithful_run {settings : Settings} (hcap : settings.userCapacity = none)
    (es : List Event) :
    Faithful (ledger ((start settings).moments es)) ((start settings).run es) ∧
      ∀ more uid ref, ((start settings).run es).cache.users.peek? uid = some ref →
        ((start settings).run (es ++ more)).cache.users.peek? uid = some ref := by
  refine ⟨(kept_run hcap es).faithful, fun more uid ref hp => ?_⟩
  induction more using List.reverseRecOn with
  | nil => rwa [List.append_nil]
  | append_singleton more e ih =>
    rw [← List.append_assoc, run_concat]
    exact (kept_run hcap (es ++ more)).peek?_step ih e

/-- Two logins of one user at the same time, the later of which ends first. No edge is found. -/
def overlappingLogins : List Event :=
  [.logIn 0 (some "first"), .logIn 1 (some "second"),
    .confirmed (.call 0) (.ok ⟨⟨userOne, "A"⟩, [⟨edgeOne, " OWNER"⟩, ⟨edgeTwo, "boss"⟩]⟩),
    .confirmed (.call 1) (.ok ⟨⟨userOne, "B"⟩, [⟨edgeOne, "admin"⟩]⟩),
    .record (.call 1) (.ok []) false, .record (.call 0) (.ok []) false,
    .record (.call 0) (.ok []) false]

theorem faithful_overlappingLogins :
    Faithful (ledger ((start { userCapacity := none }).moments overlappingLogins))
        ((start { userCapacity := none }).run overlappingLogins) ∧
      ((start { userCapacity := none }).run overlappingLogins).cache.accounts =
        [⟨userOne, "A", [(edgeOne, .owner), (edgeTwo, .guest)]⟩] :=
  ⟨(faithful_run rfl overlappingLogins).1, by decide +kernel⟩

end EdgeFleet.Service
