import EdgeFleet.Proofs.Edge.Change
import Mathlib.Data.List.Chain

namespace EdgeFleet

namespace Edge

open Directory (Field)

/-- What an edge holds that is told to be stored, apart from times. -/
structure Values where
  state : EdgeState
  config : Json
  version : String
  soc : Option Int32
  ipv4 : Option Ipv4

def recorded (r : EdgeRecord) : Values where
  state := r.state
  config := .object r.config
  version := r.version
  soc := r.soc
  ipv4 := r.ipv4

def values (e : Edge) : Values where
  state := e.state
  config := e.config
  version := e.version
  soc := e.soc
  ipv4 := e.ipv4

/-- The values once a notice of them has been taken into account. -/
def Values.told (v : Values) : Notice → Values
  | .activated => { v with state := .active }
  | .config config => { v with config }
  | .version version => { v with version }
  | .soc soc => { v with soc := some soc }
  | .ipv4 ipv4 => { v with ipv4 := some ipv4 }
  | .message | .data => v

/-- The edge after updates, one after the other. -/
def after (e : Edge) (us : List Update) : Edge :=
  us.foldl (fun e u => (e.update u).1) e

/-- The notices of updates, in the order in which they are given. -/
def log (e : Edge) : List Update → List Notice
  | [] => []
  | u :: us => (e.update u).2.toList ++ log (e.update u).1 us

@[simp]
theorem after_cons (e : Edge) (u : Update) (us : List Update) :
    e.after (u :: us) = (e.update u).1.after us := rfl

theorem after_append (e : Edge) (us vs : List Update) :
    e.after (us ++ vs) = (e.after us).after vs :=
  List.foldl_append

theorem log_append (e : Edge) (us vs : List Update) :
    e.log (us ++ vs) = e.log us ++ (e.after us).log vs := by
  induction us generalizing e with
  | nil => rfl
  | cons u us ih =>
    calc e.log (u :: us ++ vs)
      _ = (e.update u).2.toList ++ ((e.update u).1.log us ++ ((e.update u).1.after us).log vs) :=
        congrArg _ (ih _)
      _ = e.log (u :: us) ++ (e.after (u :: us)).log vs := (List.append_assoc ..).symm

/-- One notice says all that an update does to the values. -/
theorem values_update (e : Edge) (u : Update) :
    (e.update u).1.values = (e.update u).2.elim e.values e.values.told := by
  cases u with
  | online online => simp only [update]; split <;> rfl
  | config config => simp only [update]; split <;> rfl
  | version version => simp only [update]; split <;> rfl
  | soc soc =>
    simp only [update]
    split
    · rename_i h
      simp [values, h]
    · rfl
  | ipv4 ipv4 =>
    simp only [update]
    split
    · rename_i h
      simp [values, h]
    · rfl
  | message time => rfl
  | data time => rfl

theorem values_after (e : Edge) (us : List Update) :
    (e.after us).values = (e.log us).foldl Values.told e.values := by
  induction us generalizing e with
  | nil => rfl
  | cons u us ih =>
    have hone : (e.update u).1.values = (e.update u).2.toList.foldl Values.told e.values := by
      rw [values_update]
      cases (e.update u).2 <;> rfl
    rw [after_cons, ih, log, List.foldl_append, hone]

/-- What no update changes: by what the edge is identified, and what only its record says. -/
theorem identity_update (e : Edge) (u : Update) :
    ((e.update u).1.id, (e.update u).1.name, (e.update u).1.comment, (e.update u).1.productType) =
      (e.id, e.name, e.comment, e.productType) := by
  cases u <;> simp only [update] <;> split <;> rfl

theorem identity_after (e : Edge) (us : List Update) :
    ((e.after us).id, (e.after us).name, (e.after us).comment, (e.after us).productType) =
      (e.id, e.name, e.comment, e.productType) := by
  induction us generalizing e with
  | nil => rfl
  | cons u us ih => rw [after_cons, ih, identity_update]

theorem isSome_notice_iff (e : Edge) (u : Update) :
    (e.update u).2.isSome ↔
      u.field? = none ∨ ∃ field, u.field? = some field ∧ e.Differ (e.update u).1 field := by
  -- what is about no field marks a time, and what is about one is noticed as `outcome_update` says
  cases hu : u.field? with
  | none =>
    obtain ⟨signal, hs⟩ := effect_of_field?_none hu e
    have hsome := congrArg Option.isSome hs
    rw [Option.isSome_map] at hsome
    simp [hsome]
  | some field =>
    have ho := outcome_update hu e
    rw [← Option.isSome_map (f := WriteBack.effect)]
    generalize (e.update u).2.map WriteBack.effect = effect at ho
    cases ho with
    | changed text hd hc => simp [hd]
    | unchanged hd hc => simp [hd]

/-- Whether a notice tells another value than the ones given. Only an inactive edge is activated. -/
def Values.New (v : Values) : Notice → Prop
  | .activated => v.state = .inactive
  | .config config => v.config.same config = false
  | .version version => v.version ≠ version
  | .soc soc => v.soc ≠ some soc
  | .ipv4 ipv4 => v.ipv4 ≠ some ipv4
  | .message | .data => True

theorem new_of_update {e : Edge} {u : Update} {n : Notice} (h : (e.update u).2 = some n) :
    e.values.New n := by
  cases u with
  | online online =>
    simp only [update] at h
    split at h
    · rename_i hseen
      cases h
      exact hseen.2
    · cases h
  | config config =>
    simp only [update] at h
    split at h
    · cases h
    · rename_i hs
      cases h
      exact eq_false_of_ne_true hs
  | version version =>
    simp only [update] at h
    split at h
    · cases h
    · rename_i hv
      cases h
      exact hv
  | soc soc =>
    simp only [update] at h
    split at h
    · cases h
    · rename_i hs
      cases h
      exact hs
  | ipv4 ipv4 =>
    simp only [update] at h
    split at h
    · cases h
    · rename_i hs
      cases h
      exact hs
  | message time =>
    cases h
    trivial
  | data time =>
    cases h
    trivial

/-- Whether each notice tells another value than the ones before it have left. -/
def Values.Follows (v : Values) : List Notice → Prop
  | [] => True
  | n :: ns => v.New n ∧ (v.told n).Follows ns

theorem follows_log (e : Edge) (us : List Update) : e.values.Follows (e.log us) := by
  induction us generalizing e with
  | nil => trivial
  | cons u us ih =>
    have hrest := ih (e.update u).1
    rw [values_update] at hrest
    rw [log]
    cases hn : (e.update u).2 with
    | none =>
      rw [hn] at hrest
      exact hrest
    | some n =>
      rw [hn] at hrest
      exact ⟨new_of_update hn, hrest⟩

/-- Whether a part of the values is told by the notices that tell a value of its kind, and by no
other notice, where values of that kind count as different by `differ`. -/
structure Values.Part {α : Type} (differ : α → α → Prop) (part : Values → α)
    (value? : Notice → Option α) : Prop where
  kept : ∀ v n, value? n = none → part (v.told n) = part v
  changed : ∀ v n a, value? n = some a → part (v.told n) = a ∧ (v.New n → differ (part v) a)

/-- What is told of a part differs from one notice to the next, and first from what was there. -/
theorem Values.Follows.isChain {α : Type} {differ : α → α → Prop} {part : Values → α}
    {value? : Notice → Option α} (hp : Part differ part value?) {v : Values} {ns : List Notice}
    (h : v.Follows ns) : (part v :: ns.filterMap value?).IsChain differ := by
  -- by induction on the notices; one of another kind leaves the part as it was
  induction ns generalizing v with
  | nil => exact .singleton _
  | cons n ns ih =>
    obtain ⟨hnew, hrest⟩ := h
    have hchain := ih hrest
    cases hn : value? n with
    | none =>
      rw [List.filterMap_cons_none hn]
      rwa [hp.kept v n hn] at hchain
    | some a =>
      obtain ⟨htold, hd⟩ := hp.changed v n a hn
      rw [List.filterMap_cons_some hn]
      rw [htold] at hchain
      exact .cons_cons (hd hnew) hchain

/-- What is told, for each kind of value. -/
def Notice.state? : Notice → Option EdgeState
  | .activated => some .active
  | _ => none

def Notice.config? : Notice → Option Json
  | .config value => some value
  | _ => none

def Notice.version? : Notice → Option String
  | .version value => some value
  | _ => none

def Notice.soc? : Notice → Option (Option Int32)
  | .soc value => some (some value)
  | _ => none

def Notice.ipv4? : Notice → Option (Option Ipv4)
  | .ipv4 value => some (some value)
  | _ => none

theorem Values.part_state : Part (· ≠ ·) (·.state) Notice.state? where
  kept v n h := by cases n <;> first | rfl | cases h
  changed v n a h := by
    cases n <;> cases h
    exact ⟨rfl, fun hnew => by rw [show v.state = .inactive from hnew]; decide⟩

theorem Values.part_config : Part (fun a b => a.same b = false) (·.config) Notice.config? where
  kept v n h := by cases n <;> first | rfl | cases h
  changed v n a h := by cases n <;> cases h; exact ⟨rfl, fun h => h⟩

theorem Values.part_version : Part (· ≠ ·) (·.version) Notice.version? where
  kept v n h := by cases n <;> first | rfl | cases h
  changed v n a h := by cases n <;> cases h; exact ⟨rfl, fun h => h⟩

theorem Values.part_soc : Part (· ≠ ·) (·.soc) Notice.soc? where
  kept v n h := by cases n <;> first | rfl | cases h
  changed v n a h := by cases n <;> cases h; exact ⟨rfl, fun h => h⟩

theorem Values.part_ipv4 : Part (· ≠ ·) (·.ipv4) Notice.ipv4? where
  kept v n h := by cases n <;> first | rfl | cases h
  changed v n a h := by cases n <;> cases h; exact ⟨rfl, fun h => h⟩

/-- What the notices of updates say, where `r` is the record that the edge was made of. -/
structure Reconstructs (r : EdgeRecord) (us : List Update) : Prop where
  /-- Each call gives one notice at most, and gives it exactly if it marks a time or changes the
  field that it sets. It changes no other field. -/
  single : ∀ before u rest, us = before ++ u :: rest →
    ∃ told : Option Notice,
      (ofRecord r).log (before ++ [u]) = (ofRecord r).log before ++ told.toList ∧
      (told.isSome ↔ u.field? = none ∨ ∃ field, u.field? = some field ∧
        ((ofRecord r).after before).Differ ((ofRecord r).after (before ++ [u])) field) ∧
      ∀ field, ((ofRecord r).after before).Differ ((ofRecord r).after (before ++ [u])) field →
        u.field? = some field
  /-- The notices, told against the record, give what the edge holds. -/
  replayed : ((ofRecord r).log us).foldl Values.told (recorded r) = ((ofRecord r).after us).values
  /-- No notice tells the value that the last one of its kind, or the record, has told. -/
  states : (r.state :: ((ofRecord r).log us).filterMap Notice.state?).IsChain (· ≠ ·)
  configs : (.object r.config :: ((ofRecord r).log us).filterMap Notice.config?).IsChain
    fun a b => a.same b = false
  versions : (r.version :: ((ofRecord r).log us).filterMap Notice.version?).IsChain (· ≠ ·)
  socs : (r.soc :: ((ofRecord r).log us).filterMap Notice.soc?).IsChain (· ≠ ·)
  addresses : (r.ipv4 :: ((ofRecord r).log us).filterMap Notice.ipv4?).IsChain (· ≠ ·)
  /-- The rest of the record stands. -/
  id : ((ofRecord r).after us).id = r.id
  name : ((ofRecord r).after us).name = r.name
  comment : ((ofRecord r).after us).comment = r.comment
  productType : ((ofRecord r).after us).productType = r.productType

/-- The log of an edge gives the edge, whatever its record and its updates. -/
theorem log_reconstructs (r : EdgeRecord) (us : List Update) : Reconstructs r us := by
  have hf : (recorded r).Follows ((ofRecord r).log us) := follows_log (ofRecord r) us
  have hidentity := identity_after (ofRecord r) us
  simp only [Prod.mk.injEq] at hidentity
  obtain ⟨hid, hname, hcomment, hproduct⟩ := hidentity
  refine
    { single := ?single
      replayed := (values_after (ofRecord r) us).symm
      states := hf.isChain Values.part_state
      configs := hf.isChain Values.part_config
      versions := hf.isChain Values.part_version
      socs := hf.isChain Values.part_soc
      addresses := hf.isChain Values.part_ipv4
      id := hid
      name := hname
      comment := hcomment
      productType := hproduct }
  rintro before u rest -
  refine ⟨(((ofRecord r).after before).update u).2, ?_, ?_, ?_⟩
  · rw [log_append, log, log, List.append_nil]
  · rw [after_append]
    exact isSome_notice_iff _ u
  · intro field hd
    rw [after_append] at hd
    exact field?_of_differ hd

/-- A version that is set twice is told once. -/
example :
    (ofRecord ⟨⟨1, by decide⟩, "", "", "1", "", [], none, none, .inactive⟩).log
        [.version "2", .version "2", .version "1", .message ⟨0⟩] =
      [.version "2", .version "1", .message] := rfl

end Edge

end EdgeFleet
