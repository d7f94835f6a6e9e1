import EdgeFleet.Proofs.Directory.Memory
import EdgeFleet.Proofs.RecordId
import EdgeFleet.Proofs.Service.Freshness
import EdgeFleet.Proofs.Service.Provenance
import Mathlib.Data.List.Perm.Basic

/-! Writes that take their time: the service asks for a write and goes on, and the writes under way take
effect in any order. The directory and an edge agree in the end if the writes of each field take effect in
the order in which they were asked for, and need not agree otherwise. -/
namespace EdgeFleet

namespace Service

open Directory (Field Memory lastSetting?)

/-- The writes that were asked for in a run, in order. -/
def asked (ms : List Moment) : List Directory.Write := ms.flatMap fun m => writesOf m.actions

/-- Some update of the instance has changed the field. -/
def Changed (ms : List Moment) (ref : EdgeRef) (field : Field) : Prop :=
  ∃ m ∈ ms, ∃ c, m.setterCall? = some c ∧ c.ref = ref ∧ c.before.Differ c.after field

/-- The last write that was asked for each field that a current instance has changed shows what its
edge holds. -/
def Shown (ms : List Moment) (s : Service) : Prop :=
  ∀ ref i field, s.instance? ref = some i → s.isCurrent i = true → Changed ms ref field →
    ∃ text, i.edge.content? field = some text ∧
      lastSetting? i.edge.id.value field (asked ms) =
        some ⟨[i.edge.id.value], field, .text text⟩

section Step

variable {s : Service} {e : Event}

theorem instance?_step_of_ne {ref : EdgeRef} (h : ∀ c, s.setterCall? e = some c → c.ref ≠ ref) :
    (s.step e).1.instance? ref = s.instance? ref := by
  have hi := issue_step s e
  generalize s.step e = r at hi ⊢
  cases hi with
  | silent hc hs => rw [instance?, hs.instances, instance?]
  | setter c hc hi hw hk => exact hi.others ref (h c hc).symm
  | worker we he hr => rw [hr]; rfl

theorem setterCall?_of_decodes {t : Ticket} {purpose : Purpose} {record : EdgeRecord} {online : Bool}
    (hd : s.Decodes e t purpose record online) :
    s.setterCall? e = some (s.firstCall record online) := by
  obtain ⟨ht, reply, hr, rfl⟩ := hd
  simp only [setterCall?, ht, hr]

/-- A call sets something on an instance that is there, or a record makes one. -/
theorem source_of_setterCall {c : SetterCall} (hc : s.setterCall? e = some c) :
    s.instance? c.ref = some ⟨c.before, c.generation⟩ ∨
      ∃ t purpose record online, s.Decodes e t purpose record online ∧
        c = s.firstCall record online := by
  cases e with
  | update n ref u =>
    simp only [setterCall?] at hc
    split at hc
    · obtain ⟨i, hi, rfl⟩ := Option.map_eq_some_iff.mp hc
      exact Or.inl hi
    · cases hc
  | record t result online =>
    cases result with
    | error e => cases hc
    | ok reply =>
      simp only [setterCall?] at hc
      split at hc
      · rename_i id purpose ht
        split at hc
        · rename_i record hr
          cases hc
          have hid := EdgeRecord.id_of_decodeFor hr
          subst hid
          exact Or.inr ⟨t, purpose, record, online, ⟨ht, reply, hr, rfl⟩, rfl⟩
        · cases hc
      · cases hc
  | _ => cases hc

theorem before_of_setterCall {c : SetterCall} (hc : s.setterCall? e = some c) :
    s.instance? c.ref = some ⟨c.before, c.generation⟩ ∨ c.ref = s.instances.length := by
  rcases source_of_setterCall hc with hi | ⟨t, purpose, record, online, -, rfl⟩
  · exact Or.inl hi
  · exact Or.inr rfl

/-- An update leaves the edge and the generation of its instance as they are. -/
theorem stamp?_step {ref : EdgeRef} (h : (s.instance? ref).isSome = true) :
    (s.step e).1.stamp? ref = s.stamp? ref := by
  by_cases hr : ∃ c, s.setterCall? e = some c ∧ c.ref = ref
  · obtain ⟨c, hc, rfl⟩ := hr
    rcases before_of_setterCall hc with hi | hl
    · rw [stamp?_of_instance? (writes_of_setterCall hc).1.own, stamp?_of_instance? hi]
      exact congrArg (fun id => some (id, c.generation)) (Edge.id_update c.before c.update)
    · simp [hl, instance?] at h
  · rw [stamp?, stamp?, instance?_step_of_ne fun c hc he => hr ⟨c, hc, he⟩]

variable (hn : Numbered s) (hle : ∀ id, s.generations.last id ≤ (s.step e).1.generations.last id)

include hn hle

/-- What is current after an event was current before it, if it was there. -/
theorem isCurrent_of_step {ref : EdgeRef} {i j : Instance} (hi : s.instance? ref = some i)
    (hj : (s.step e).1.instance? ref = some j) (hc : (s.step e).1.isCurrent j = true) :
    i.edge.id = j.edge.id ∧ s.isCurrent i = true := by
  have hs := stamp?_step (e := e) (Option.isSome_of_eq_some hi)
  rw [stamp?_of_instance? hi, stamp?_of_instance? hj] at hs
  obtain ⟨hid, hg⟩ := Prod.mk.inj (Option.some.inj hs)
  refine ⟨hid.symm, ?_⟩
  have hlast : (s.step e).1.generations.last j.edge.id = j.generation :=
    Generations.last_of_isCurrent hc
  have hst := stamp?_of_instance? hi
  have hissued := (hn.issued _ _ _ hst).2
  have hmono := hle i.edge.id
  rw [← hid, hlast, hg, hid] at hmono
  exact (hn.isCurrent_iff hst).mpr (Nat.le_antisymm hmono hissued)

omit hn hle in
theorem ref_unique (hn : Numbered s) {ref other : EdgeRef} {i j : Instance}
    (hi : s.instance? ref = some i) (hj : s.instance? other = some j) (hci : s.isCurrent i = true)
    (hcj : s.isCurrent j = true) (hid : i.edge.id = j.edge.id) : ref = other := by
  have hgi : s.generations.last i.edge.id = i.generation := Generations.last_of_isCurrent hci
  have hgj : s.generations.last j.edge.id = j.generation := Generations.last_of_isCurrent hcj
  have hsi : s.stamp? ref = some (j.edge.id, j.generation) := by
    rw [stamp?_of_instance? hi, ← hgi, ← hgj, hid]
  exact hn.distinct _ _ _ _ hsi (stamp?_of_instance? hj)

omit hn hle in
/-- If an event changes no field of a current instance, it asks for no write of that field. -/
theorem not_sets_of_step (hn' : Numbered (s.step e).1) (hk : Stamps s.worker) {ref : EdgeRef}
    {i : Instance} {field : Field} (hi : (s.step e).1.instance? ref = some i)
    (hc : (s.step e).1.isCurrent i = true)
    (hd : ∀ c, s.setterCall? e = some c → c.ref = ref → ¬ c.before.Differ c.after field)
    (hf : field ∈ [Field.state, .version, .config, .soc, .ipv4]) :
    ∀ w ∈ writesOf (s.step e).2, ¬ w.Sets i.edge.id.value field := by
  rintro w hw ⟨rfl, hid⟩
  obtain ⟨a, ha, hw⟩ := List.mem_filterMap.mp hw
  rcases source_of_write hk ha hw with ⟨c, hsc, hissues⟩ | ⟨owner, b, rfl, signal, hfield⟩
  · refine hd c hsc ?_ hissues.changed
    have hown := (writes_of_setterCall hsc).1.own
    have hids : c.after.id = i.edge.id := by
      rw [hissues.ids, List.mem_singleton] at hid
      exact RecordId.value_injective hid.symm
    exact ref_unique hn' hown hi hissues.current hc hids
  · cases hw
    have hf' : signal.field ∈ [Field.state, .version, .config, .soc, .ipv4] := hfield ▸ hf
    cases signal with
    | message => exact absurd hf' (by decide)
    | data => exact absurd hf' (by decide)

omit hn hle in
/-- What an event does not change of an instance is there as it was. -/
theorem content?_step_of_not_differ {ref : EdgeRef} {i j : Instance} {field : Field}
    (hj : s.instance? ref = some j) (hi : (s.step e).1.instance? ref = some i)
    (hd : ∀ c, s.setterCall? e = some c → c.ref = ref → ¬ c.before.Differ c.after field) :
    i.edge.content? field = j.edge.content? field := by
  by_cases hr : ∃ c, s.setterCall? e = some c ∧ c.ref = ref
  · obtain ⟨c, hsc, rfl⟩ := hr
    rw [(writes_of_setterCall hsc).1.own] at hi
    cases hi
    rcases before_of_setterCall hsc with hb | hl
    · rw [hb] at hj
      cases hj
      exact Edge.content?_update_of_not_differ (hd c hsc rfl)
    · simp [hl, instance?] at hj
  · have hsame := instance?_step_of_ne (e := e) fun c hsc he => hr ⟨c, hsc, he⟩
    rw [hsame, hj] at hi
    cases hi
    rfl

/-- An event asks for the write of what it changes of a current instance. -/
theorem Shown.step {ms : List Moment} (hn' : Numbered (s.step e).1) (hk : Stamps s.worker)
    (hms : ∀ m ∈ ms, ∀ c, m.setterCall? = some c → (s.instance? c.ref).isSome = true)
    (h : Shown ms s) : Shown (ms ++ [⟨s, e⟩]) (s.step e).1 := by
  intro ref i field hi hc hch
  have hasked : asked (ms ++ [⟨s, e⟩]) = asked ms ++ writesOf (s.step e).2 := by
    simp [asked, Moment.actions]
  rw [hasked]
  by_cases hnew : ∃ c, s.setterCall? e = some c ∧ c.ref = ref ∧ c.before.Differ c.after field
  · obtain ⟨c, hsc, rfl, hd⟩ := hnew
    obtain ⟨hstored, hw⟩ := writes_of_setterCall hsc
    rw [hstored.own] at hi
    cases hi
    obtain ⟨text, ht, hone⟩ := SetterCall.exists_writes_eq hc hd
    refine ⟨text, ht, ?_⟩
    rw [hw, hone, Directory.lastSetting?_concat, if_pos ⟨rfl, List.mem_singleton_self _⟩]
    rfl
  · -- it does not, so the edge still holds what it held, and no write of the field has come after
    have hnot (c : SetterCall) (hsc : s.setterCall? e = some c) (hr : c.ref = ref) :
        ¬ c.before.Differ c.after field := fun hd => hnew ⟨c, hsc, hr, hd⟩
    obtain ⟨m, hm, c, hsc, rfl, hd⟩ : Changed ms ref field := by
      obtain ⟨m, hm, c, hsc, hr, hd⟩ := hch
      rcases List.mem_append.mp hm with hm | hm
      · exact ⟨m, hm, c, hsc, hr, hd⟩
      · rw [List.mem_singleton.mp hm] at hsc
        exact absurd hd (hnot c hsc hr)
    obtain ⟨j, hj⟩ := Option.isSome_iff_exists.mp (hms m hm c hsc)
    obtain ⟨hid, hcj⟩ := isCurrent_of_step hn hle hj hi hc
    obtain ⟨text, ht, hlast⟩ := h c.ref j field hj hcj ⟨m, hm, c, hsc, rfl, hd⟩
    have hcontent := content?_step_of_not_differ hj hi hnot
    have hnone := not_sets_of_step hn' hk hi hc hnot (Edge.field_of_differ hd)
    refine ⟨text, hcontent.trans ht, ?_⟩
    rw [Directory.lastSetting?_append_of_none _ hnone, ← hid]
    exact hlast

end Step

/-- The service with the writes that are under way, and those that have taken effect, in order. -/
structure Line where
  service : Service
  sent : List Directory.Write := []
  arrived : List Directory.Write := []

namespace Line

/-- What happens next: an event, or one of the writes under way takes effect. -/
inductive Move
  | happen (e : Event)
  | arrive (n : Nat)

def Move.event? : Move → Option Event
  | .happen e => some e
  | .arrive _ => none

def events (moves : List Move) : List Event := moves.filterMap Move.event?

def step (l : Line) : Move → Line
  | .happen e =>
    let (service, actions) := l.service.step e
    { l with service, sent := l.sent ++ writesOf actions }
  | .arrive n =>
    match l.sent[n]? with
    | none => l
    | some w => { l with sent := l.sent.eraseIdx n, arrived := l.arrived ++ [w] }

/-- The line after some moves, from the start of the service. -/
def run (settings : Settings) (moves : List Move) : Line :=
  moves.foldl step { service := start settings }

theorem run_concat (settings : Settings) (moves : List Move) (move : Move) :
    run settings (moves ++ [move]) = (run settings moves).step move := List.foldl_append

end Line

end Service

end EdgeFleet
