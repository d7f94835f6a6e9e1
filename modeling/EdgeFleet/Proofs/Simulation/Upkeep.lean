import EdgeFleet.Proofs.Service.Run
import EdgeFleet.Proofs.Simulation.Flush

namespace EdgeFleet

open Directory (Field)
open WriteBack (Effect effect)

namespace Directory.Memory

/-- The value of a field as a reading shows it; one that is not set is `false`. -/
def shown (m : Memory) (id : UInt32) (field : Field) : Json := (m.value? id field).getD (.bool false)

theorem shown_of_record? {m : Memory} {id : UInt32} {r : Record} (h : m.record? id = some r) :
    m.shown id = EdgeRecord.shown r := by
  funext field
  rw [shown, value?, h]
  rfl

end Directory.Memory

namespace Edge

theorem state_update_online (e : Edge) : (e.update (.online true)).1.state ≠ .inactive := by
  by_cases h : e.state = .inactive
  · simp [update, h]
  · rw [state_update_of_ne_inactive h]
    exact h

/-- Being seen online changes nothing that is stored, unless it is for the first time. -/
theorem Agrees.update_online {e e' : Edge} (h : e.Agrees e') {online : Bool}
    (hs : online = true → e.state ≠ .inactive) : e.Agrees (e'.update (.online online)).1 := by
  have hnot : ¬ (online = true ∧ e'.state = .inactive) := by
    rintro ⟨ho, hi⟩
    exact hs ho (h.state.trans hi)
  simp only [update, hnot, if_false]
  exact { h with }

end Edge

namespace Simulation

variable {s : Simulation} {id : EdgeId} {edge : String} {ref : EdgeRef} {i : Instance}

section CarryOut

variable {m : Directory.Memory} (hf : m.failWrites = false)

theorem failReads_carryOut (m : Directory.Memory) (id : EdgeId) (change : Option Effect) :
    (carryOut m id change).failReads = m.failReads := by
  match change with
  | none | some (.mark _) => rfl
  | some (.store field value) => exact Directory.Memory.failReads_write m _ _ _

include hf

theorem failWrites_carryOut (id : EdgeId) (change : Option Effect) :
    (carryOut m id change).failWrites = false := by
  match change with
  | none | some (.mark _) => exact hf
  | some (.store field value) => exact Directory.Memory.failWrites_write hf _ _ _

theorem isSome_record?_carryOut (id : EdgeId) (change : Option Effect) :
    ((carryOut m id change).record? id.value).isSome = (m.record? id.value).isSome := by
  match change with
  | none | some (.mark _) => rfl
  | some (.store field value) => exact Directory.Memory.isSome_record?_write hf _ _ _ _

theorem shown_carryOut {id : EdgeId} (hr : (m.record? id.value).isSome = true)
    (change : Option Effect) :
    (carryOut m id change).shown id.value = Edge.stored (m.shown id.value) change := by
  match change with
  | none | some (.mark _) => rfl
  | some (.store field value) =>
    funext other
    have hvalue := Directory.Memory.value?_write hf hr ⟨[id.value], field, value⟩ other
    rw [Directory.Memory.shown, carryOut, hvalue]
    by_cases ho : other = field
    · simp [Directory.Write.Sets, Edge.stored, ho]
    · have ho' : ¬ field = other := fun h => ho h.symm
      simp [Directory.Write.Sets, Edge.stored, ho, ho', Directory.Memory.shown]

end CarryOut

variable {rel : Edge → (Field → Json) → Prop}

/-- An instance that is kept under a name is current, and its edge is related to its record. -/
structure Tended (rel : Edge → (Field → Json) → Prop) (s : Simulation) (id : EdgeId) (edge : String)
    (ref : EdgeRef) (i : Instance) : Prop where
  calm : s.Calm id
  kept : s.kept? edge = some ref
  held : s.service.instance? ref = some i
  own : i.edge.id = id
  current : s.service.generations.isCurrent id i.generation = true
  there : (s.directory.record? id.value).isSome = true
  shown : rel i.edge (s.directory.shown id.value)
  seen : s.isOnline id = true → i.edge.state ≠ .inactive

/-- An instance that is kept under a name is current, and its record shows its edge. -/
abbrev Upkept := Tended Edge.ShownBy

/-- Commands that set something on the edge that is kept under a name, or let the worker flush. -/
inductive Upkeep (edge : String) : Command → Prop
  | update (u : Edge.Update) (hu : u.Settable) : Upkeep edge (.update edge u)
  | mark (signal : WriteBack.Signal) : Upkeep edge (.mark edge signal)
  | flush : Upkeep edge .flush
  | advance (millis : Nat) : Upkeep edge (.advance millis)

theorem Tended.edge? (h : Tended rel s id edge ref i) : s.edge? ref = some i.edge := by
  rw [Simulation.edge?, h.held]
  rfl

theorem Tended.mono {rel' : Edge → (Field → Json) → Prop} (h : Tended rel s id edge ref i)
    (hr : ∀ {e value}, rel e value → rel' e value) : Tended rel' s id edge ref i :=
  { h with shown := hr h.shown }

section Step

variable {allowed : Edge.Update → Prop} (hl : Edge.Lasting rel allowed)

include hl

/-- An update comes to its end, and what the record is to the edge it is to the updated one. -/
theorem Tended.run_update (h : Tended rel s id edge ref i) {u : Edge.Update} (hu : allowed u) (n : Nat) :
    Tended rel (s.run n (.update edge u)).1 id edge ref { i with edge := (i.edge.update u).1 } ∧
      (s.run n (.update edge u)).2.outcome.isSome = true := by
  have hshown := hl.update h.shown hu
  rw [← shown_carryOut h.calm.writes h.there] at hshown
  have hown := (i.edge.id_update u).trans h.own
  -- an edge that is connected has been seen, and no update takes that back
  have hseen (ho : s.isOnline id = true) : (i.edge.update u).1.state ≠ .inactive := by
    rw [Edge.state_update_of_ne_inactive (h.seen ho)]
    exact h.seen ho
  rcases hupdate : i.edge.update u with ⟨e, notice⟩
  rw [hupdate] at hshown hown hseen
  obtain ⟨pending, log, hrun⟩ :=
    Simulation.run_update h.calm h.kept h.held h.own h.current hupdate n
  rw [hrun]
  refine ⟨?_, rfl⟩
  constructor
  case calm =>
    exact { h.calm with
      turns := rfl, waiting := rfl, tasks := rfl
      reads := (failReads_carryOut _ _ _).trans h.calm.reads
      writes := failWrites_carryOut h.calm.writes _ _ }
  case kept => exact h.kept
  case held => exact List.getElem?_set_self (List.getElem?_eq_some_iff.mp h.held).1
  case own => exact hown
  case current => exact h.current
  case there => exact (isSome_record?_carryOut h.calm.writes _ _).trans h.there
  case shown => exact hshown
  case seen => exact hseen

theorem Tended.flushed {s' : Simulation} (h : Tended rel s id edge ref i) (hf : Flushed s s') :
    Tended rel s' id edge ref i := by
  have hcalm := hf.calm h.calm
  obtain ⟨hthere, hvalue⟩ := hf.value? h.calm h.there
  have hshown : rel i.edge (s'.directory.shown id.value) := by
    apply hl.congr h.shown
    intro field hfield
    rw [Directory.Memory.shown, hvalue field hfield, Directory.Memory.shown]
  obtain ⟨_, _, _, _, _, _, rfl, -⟩ := hf
  exact ⟨hcalm, h.kept, h.held, h.own, h.current, hthere, hshown, h.seen⟩

/-- Each command comes to its end, and the record goes on to be related to the edge. -/
theorem Tended.step {c : Command} (h : Tended rel s id edge ref i)
    (ha : ∀ {u : Edge.Update}, u.Settable → allowed u) (hc : Upkeep edge c) (n : Nat) :
    (∃ i', Tended rel (s.run n c).1 id edge ref i') ∧ (s.run n c).2.outcome.isSome = true := by
  cases hc with
  | update u hu =>
    obtain ⟨hnext, hend⟩ := h.run_update hl (ha hu) n
    exact ⟨⟨_, hnext⟩, hend⟩
  | mark signal =>
    cases signal with
    | message =>
      have hset : (Edge.Update.message s.time).Settable := trivial
      obtain ⟨hnext, hend⟩ := h.run_update hl (ha hset) n
      exact ⟨⟨_, hnext⟩, hend⟩
    | data =>
      have hset : (Edge.Update.data s.time).Settable := trivial
      obtain ⟨hnext, hend⟩ := h.run_update hl (ha hset) n
      exact ⟨⟨_, hnext⟩, hend⟩
  | flush =>
    obtain ⟨hf, hend⟩ := flushed_run_flush h.calm n
    exact ⟨⟨i, h.flushed hl hf⟩, by rw [hend]; rfl⟩
  | advance millis =>
    obtain ⟨hf, hend⟩ := flushed_run_advance h.calm n millis
    exact ⟨⟨i, h.flushed hl hf⟩, hend⟩

end Step

theorem Upkept.step {c : Command} (h : Upkept s id edge ref i) (hc : Upkeep edge c) (n : Nat) :
    (∃ i', Upkept (s.run n c).1 id edge ref i') ∧ (s.run n c).2.outcome.isSome = true :=
  Tended.step Edge.lasting_shownBy h (fun hu => hu) hc n

/-- The run after some commands, each with its number. -/
def runAll (s : Simulation) (cs : List (Nat × Command)) : Simulation :=
  cs.foldl (fun s c => (s.run c.1 c.2).1) s

/-- What every command of a kind leaves is left by a run of them. -/
theorem Tended.runAll {kind : Command → Prop} (hstep : ∀ {s i c}, Tended rel s id edge ref i → kind c →
      ∀ n, ∃ i', Tended rel (s.run n c).1 id edge ref i')
    {cs : List (Nat × Command)} (h : Tended rel s id edge ref i) (hcs : ∀ c ∈ cs, kind c.2) :
    ∃ i', Tended rel (s.runAll cs) id edge ref i' := by
  induction cs generalizing s i with
  | nil => exact ⟨i, h⟩
  | cons c rest ih =>
    obtain ⟨i', hnext⟩ := hstep h (hcs c List.mem_cons_self) c.1
    exact ih hnext fun c hc => hcs c (List.mem_cons_of_mem _ hc)

theorem Upkept.runAll {cs : List (Nat × Command)} (h : Upkept s id edge ref i)
    (hcs : ∀ c ∈ cs, Upkeep edge c.2) : ∃ i', Upkept (s.runAll cs) id edge ref i' :=
  Tended.runAll (fun h hc n => (Upkept.step h hc n).1) h hcs

/-- A refresh has returned an edge that is kept under a name, and of the commands after it each comes to
its end before the next one. -/
structure Returned (first : Simulation × Report) (edge : String) (cs : List (Nat × Command)) (e : Edge)
    (ref : EdgeRef) : Prop where
  outcome : first.2.outcome = some (.edge e)
  kept : first.1.kept? edge = some ref
  held : first.1.edge? ref = some e
  ended : ∀ before c rest, cs = before ++ c :: rest →
    ((first.1.runAll before).run c.1 c.2).2.outcome.isSome = true

theorem Tended.returned {first : Simulation × Report} {kind : Command → Prop}
    (hstep : ∀ {s i c}, Tended rel s id edge ref i → kind c → ∀ n,
      (∃ i', Tended rel (s.run n c).1 id edge ref i') ∧ (s.run n c).2.outcome.isSome = true)
    {cs : List (Nat × Command)} (h : Tended rel first.1 id edge ref i)
    (ho : first.2.outcome = some (.edge i.edge)) (hcs : ∀ c ∈ cs, kind c.2) :
    Returned first edge cs i.edge ref where
  outcome := ho
  kept := h.kept
  held := h.edge?
  ended := by
    rintro before c rest rfl
    obtain ⟨_, hbefore⟩ := h.runAll (fun h hc n => (hstep h hc n).1)
      fun c hc => hcs c (List.mem_append_left _ hc)
    exact (hstep hbefore (hcs c (by simp)) c.1).2

section Refresh

variable {r : Directory.Record} {record : EdgeRecord}

/-- A refresh of a record that decodes returns an edge which the record shows. -/
theorem upkept_refresh (hc : s.Calm id) (hr : s.directory.record? id.value = some r)
    (hd : EdgeRecord.decodeFor id (Directory.Memory.select id.value EdgeRecord.fields r) = .ok record)
    (n : Nat) (edge : String) :
    ∃ i ref, (s.run n (.refresh id (some edge))).2.outcome = some (.edge i.edge) ∧
      Upkept (s.run n (.refresh id (some edge))).1 id edge ref i := by
  obtain ⟨hid, hshown⟩ := EdgeRecord.decodeFor_select_iff.mp hd
  let counted : Directory.Memory := { s.directory with reads := s.directory.reads + 1 }
  have hthere : (counted.record? id.value).isSome = true := Option.isSome_iff_exists.mpr ⟨r, hr⟩
  -- what has been read is shown, and being told whether it is online is an update like any other
  rw [← Directory.Memory.shown_of_record? (m := counted) hr] at hshown
  have hafter := Edge.shownBy_update hshown (u := .online (s.isOnline id)) trivial
  rw [← shown_carryOut (m := counted) hc.writes hthere] at hafter
  have hown := (Edge.ofRecord record).id_update (.online (s.isOnline id))
  have hseen := (Edge.ofRecord record).state_update_online
  rcases hu : (Edge.ofRecord record).update (.online (s.isOnline id)) with ⟨e, notice⟩
  rw [hu] at hafter hown
  obtain ⟨log, hrun⟩ := run_refresh hc.ready hr hd hu n (some edge)
  rw [hc.attempt_eq] at hrun
  rw [hrun]
  refine ⟨⟨e, (s.service.generations.advance id).2⟩, s.service.instances.length, rfl, ?_⟩
  constructor
  case calm =>
    exact { hc with
      turns := rfl, waiting := rfl, tasks := rfl
      reads := (failReads_carryOut counted _ _).trans hc.reads
      writes := failWrites_carryOut (m := counted) hc.writes _ _ }
  case kept => exact Ordered.get?_insert_self _ _ _
  case held => exact s.service.instance?_made id e
  case own => exact hown.trans hid
  case current => exact s.service.isCurrent_made id e
  case there => exact (isSome_record?_carryOut (m := counted) hc.writes _ _).trans hthere
  case shown => exact hafter
  case seen =>
    intro ho
    have honline : s.isOnline id = true := ho
    rw [honline] at hu
    rw [hu] at hseen
    exact hseen

theorem Upkept.refresh (h : Upkept s id edge ref i) (n : Nat) (keep : Option String) :
    ∃ e, (s.run n (.refresh id keep)).2.outcome = some (.edge e) ∧ e.id = id ∧ i.edge.Agrees e := by
  obtain ⟨r, hr⟩ := Option.isSome_iff_exists.mp h.there
  have hshown := h.shown
  rw [Directory.Memory.shown_of_record? hr] at hshown
  obtain ⟨record, hd, hid, hagree⟩ := hshown.exists_record id
  have hown := (Edge.ofRecord record).id_update (.online (s.isOnline id))
  -- presence is as it was at the first refresh, so it makes no difference now
  have hagree' := hagree.update_online h.seen
  rcases hu : (Edge.ofRecord record).update (.online (s.isOnline id)) with ⟨e, notice⟩
  rw [hu] at hown hagree'
  obtain ⟨log, hrun⟩ := run_refresh h.calm.ready hr hd hu n keep
  rw [hrun]
  exact ⟨e, rfl, hown.trans hid, hagree'⟩

end Refresh

/-- Another refresh after the commands returns an edge that agrees with the one at hand. -/
structure Agreement (first : Simulation × Report) (id : EdgeId) (cs : List (Nat × Command)) (n : Nat)
    (keep : Option String) (ref : EdgeRef) (e e' : Edge) : Prop where
  held : (first.1.runAll cs).edge? ref = some e
  outcome : ((first.1.runAll cs).run n (.refresh id keep)).2.outcome = some (.edge e')
  own : e'.id = id
  agrees : e.Agrees e'

/-- What a refresh has returned may be set anew by any commands: a later refresh succeeds and agrees with
it. -/
theorem refresh_agrees (hc : s.Calm id) {r : Directory.Record} {record : EdgeRecord}
    (hr : s.directory.record? id.value = some r)
    (hd : EdgeRecord.decodeFor id (Directory.Memory.select id.value EdgeRecord.fields r) = .ok record)
    (edge : String) {cs : List (Nat × Command)} (hcs : ∀ c ∈ cs, Upkeep edge c.2) (n n' : Nat)
    (keep : Option String) :
    let first := s.run n (.refresh id (some edge))
    ∃ e₀ ref e e', Returned first edge cs e₀ ref ∧ Agreement first id cs n' keep ref e e' := by
  intro first
  obtain ⟨i, ref, hfirst, hupkept⟩ := upkept_refresh hc hr hd n edge
  obtain ⟨i', hafter⟩ := hupkept.runAll hcs
  obtain ⟨e', hsecond, hid, hagree⟩ := hafter.refresh n' keep
  have hreturned : Returned first edge cs i.edge ref := hupkept.returned Upkept.step hfirst hcs
  exact ⟨i.edge, ref, i'.edge, e', hreturned, ⟨hafter.edge?, hsecond, hid, hagree⟩⟩

section Start

open Service (edgeOne)

theorem calm_start (settings : Settings) (online : Option (List EdgeId)) (timeout : Nat)
    (id : EdgeId) : (start settings online timeout).Calm id where
  turns := rfl
  waiting := rfl
  holding := rfl
  refusing := rfl
  reply := rfl
  reads := rfl
  writes := rfl
  tasks := rfl
  idle := rfl
  closed := rfl
  flushes := rfl
  period := by
    have hpos : 1 ≤ settings.writeInterval := Nat.le_max_right _ _
    change 5 < Timestamp.wait settings.writeInterval
    unfold Timestamp.wait
    split
    · decide
    · omega

theorem Calm.device (hc : s.Calm id) (n : Nat) (own : UInt32) (r : Directory.Record) :
    (s.run n (.device own r)).1.Calm id := by
  have hw : (s.run n (.device own r)).1.waiting = [] := by
    simp [run, perform, endCommand, hc.waiting]
  exact { hc with waiting := hw }

/-- A configuration with one limit. -/
def limitOf (n : Int) : Json.Members := [("limit", .ofInt n)]

/-- A meter that has not been seen online. -/
def meterRecord : Directory.Record :=
  [(Field.config.key, .text (Json.pretty (.object (limitOf 5)))), (Field.soc.key, .ofNat 42),
    (Field.state.key, .text EdgeState.inactive.name)]

/-- The meter's record is put into the directory while the meter is connected. -/
def metered : Simulation := ((start {} (some [edgeOne]) 30).run 0 (.device 1 meterRecord)).1

/-- Commands that set the meter anew, one of them back to its earlier value. -/
def metering : List (Nat × Command) :=
  [(2, .update "meter" (.version "7")), (3, .mark "meter" .data),
    (4, .update "meter" (.config (.object (limitOf (-3))))), (5, .flush),
    (6, .update "meter" (.soc 7)), (7, .update "meter" (.soc 42)), (8, .advance 60000),
    (9, .update "meter" (.online false))]

theorem canonical_limitOf {n : Int} (hn : Json.minInteger ≤ n ∧ n ≤ Json.maxInteger) :
    (Json.object (limitOf n)).Canonical :=
  ⟨List.pairwise_singleton _ _, hn, trivial⟩

theorem integral_limitOf (n : Int) : (Json.object (limitOf n)).Integral := ⟨trivial, trivial⟩

theorem depth_limitOf (n : Int) : (Json.object (limitOf n)).depth ≤ 127 := by
  simp [limitOf, Json.ofInt, Json.depth, Json.depthMembers]

theorem decodeFor_meterRecord :
    EdgeRecord.decodeFor edgeOne (Directory.Memory.select edgeOne.value EdgeRecord.fields
      (Ordered.insert Field.id.key (.ofNat 1) meterRecord)) =
        .ok ⟨edgeOne, "", "", "", "", limitOf 5, some 42, none, .inactive⟩ := by
  have hread := Document.parse_pretty (canonical_limitOf (n := 5) (by decide)) (integral_limitOf 5)
    (depth_limitOf 5)
  apply EdgeRecord.decodeFor_select_iff.mpr
  refine ⟨rfl, ⟨rfl, rfl, rfl, rfl, rfl, ⟨"", rfl, rfl⟩, ?_⟩, _, _, rfl, hread, rfl⟩
  exact ⟨EdgeState.inactive.name, rfl, by rw [EdgeState.parse?_name]; rfl⟩

theorem refresh_agrees_metering :
    let first := metered.run 1 (.refresh edgeOne (some "meter"))
    let after := first.1.runAll metering
    ∃ ref e e', first.1.kept? "meter" = some ref ∧ after.edge? ref = some e ∧
      (after.run 10 (.refresh edgeOne none)).2.outcome = some (.edge e') ∧ e.Agrees e' := by
  have hrecord : metered.directory.record? edgeOne.value =
      some (Ordered.insert Field.id.key (.ofNat 1) meterRecord) := rfl
  have hcs : ∀ c ∈ metering, Upkeep "meter" c.2 := by
    simp only [metering, List.forall_mem_cons]
    have hset : (Edge.Update.config (.object (limitOf (-3)))).Settable :=
      ⟨_, rfl, canonical_limitOf (by decide), integral_limitOf (-3), depth_limitOf (-3)⟩
    exact ⟨.update _ trivial, .mark _, .update _ hset, .flush, .update _ trivial, .update _ trivial,
      .advance _, .update _ trivial, by simp⟩
  obtain ⟨e₀, ref, e, e', hreturned, hagreement⟩ :=
    refresh_agrees ((calm_start {} _ _ _).device 0 1 meterRecord) hrecord decodeFor_meterRecord "meter" hcs 1 10 none
  exact ⟨ref, e, e', hreturned.kept, hagreement.held, hagreement.outcome, hagreement.agrees⟩

end Start

end Simulation

end EdgeFleet
