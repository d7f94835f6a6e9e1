import EdgeFleet.Proofs.Simulation.Upkeep

namespace EdgeFleet.Simulation

open Directory (Field)

variable {s : Simulation} {id : EdgeId} {edge : String} {ref : EdgeRef} {i : Instance}

/-- Commands that set something on the edge that is kept under a name, where a configuration may be any
value, or let the worker flush. -/
inductive Setting (edge : String) : Command → Prop
  | upkeep {c : Command} (h : Upkeep edge c) : Setting edge c
  | config (j : Json) (hc : j.Canonical) (hf : j.Finite) : Setting edge (.update edge (.config j))

theorem Setting.wellFormed {u : Edge.Update} (h : Setting edge (.update edge u)) : u.WellFormed := by
  cases h with
  | upkeep h =>
    cases h with
    | update _ hu => exact hu.wellFormed
  | config j hc hf => exact ⟨hc, hf⟩

/-- A refresh returns an edge exactly if the configuration at hand can be a document. -/
theorem Tended.refresh_iff (h : Tended Edge.Mirrored s id edge ref i) (n : Nat) (keep : Option String) :
    (i.edge.config.Documentary →
      ∃ e, (s.run n (.refresh id keep)).2.outcome = some (.edge e) ∧ e.id = id) ∧
    (¬ i.edge.config.Documentary → (s.run n (.refresh id keep)).2.outcome = some .nothing) := by
  obtain ⟨r, hr⟩ := Option.isSome_iff_exists.mp h.there
  have hmirrored := h.shown
  rw [Directory.Memory.shown_of_record? hr] at hmirrored
  have hiff := hmirrored.decodes_iff id
  constructor
  · intro hdoc
    obtain ⟨record, hd⟩ := hiff.mpr hdoc
    rcases hu : (Edge.ofRecord record).update (.online (s.isOnline id)) with ⟨e, notice⟩
    obtain ⟨log, hrun⟩ := run_refresh h.calm.ready hr hd hu n keep
    rw [hrun]
    exact ⟨e, rfl, (Service.id_of_update_ofRecord hu).trans (EdgeRecord.id_of_decodeFor hd)⟩
  · intro hdoc
    cases hd : EdgeRecord.decodeFor id (Directory.Memory.select id.value EdgeRecord.fields r) with
    | ok record => exact absurd (hiff.mp ⟨record, hd⟩) hdoc
    | error error => exact run_refresh_undecodable h.calm.ready hr hd n keep

theorem Tended.refreshable_iff (h : Tended Edge.Mirrored s id edge ref i) :
    (∀ n keep, ∃ e, (s.run n (.refresh id keep)).2.outcome = some (.edge e) ∧ e.id = id) ↔
      i.edge.config.Documentary := by
  constructor
  · intro hreturns
    by_contra hnot
    obtain ⟨e, he, -⟩ := hreturns 0 none
    have hnothing := (h.refresh_iff 0 none).2 hnot
    rw [he] at hnothing
    cases hnothing
  · intro hdoc n keep
    exact (h.refresh_iff n keep).1 hdoc

theorem Tended.object_iff (h : Tended Edge.Mirrored s id edge ref i) :
    (∃ e members, s.edge? ref = some e ∧ e.config = .object members) ↔
      ∃ members, i.edge.config = .object members := by
  rw [h.edge?]
  constructor
  · rintro ⟨e, members, he, hconfig⟩
    obtain rfl := Option.some.inj he
    exact ⟨members, hconfig⟩
  · rintro ⟨members, hconfig⟩
    exact ⟨_, members, rfl, hconfig⟩

section Throughout

/-- A property of configurations that documents have, and that a configuration which is set has exactly if
the given value has it. -/
structure Settled (good : Json → Prop) : Prop where
  documentary : ∀ {j}, j.Documentary → good j
  update : ∀ (e : Edge) j, good (e.update (.config j)).1.config ↔ good j

theorem settled_documentary : Settled Json.Documentary where
  documentary h := h
  update := Edge.documentary_update

theorem settled_object : Settled fun j => ∃ members, j = .object members where
  documentary h := h.1
  update e j := by
    simp only [Edge.update]
    split
    · rename_i hsame
      exact Json.isObject_of_same hsame
    · rfl

theorem Tended.step_setting {c : Command} (h : Tended Edge.Mirrored s id edge ref i)
    (hc : Setting edge c) (n : Nat) :
    (∃ i', Tended Edge.Mirrored (s.run n c).1 id edge ref i') ∧ (s.run n c).2.outcome.isSome = true := by
  cases hc with
  | upkeep hc => exact Tended.step Edge.lasting_mirrored h (fun hu => hu.wellFormed) hc n
  | config j hc hf =>
    obtain ⟨hnext, hend⟩ := Tended.run_update Edge.lasting_mirrored h (u := .config j) ⟨hc, hf⟩ n
    exact ⟨⟨_, hnext⟩, hend⟩

variable {good : Json → Prop} (hg : Settled good)

include hg

theorem lasting_good :
    Edge.Lasting (fun e value => e.Mirrored value ∧ good e.config)
      (fun u => u.WellFormed ∧ ∀ j, u = .config j → good j) where
  update := by
    rintro e value u ⟨hmirrored, hgood⟩ ⟨hu, hj⟩
    refine ⟨Edge.mirrored_update hmirrored hu, ?_⟩
    by_cases hset : ∃ j, u = .config j
    · obtain ⟨j, rfl⟩ := hset
      exact (hg.update e j).mpr (hj j rfl)
    · rw [(Edge.config_update_of_ne e value (not_exists.mp hset)).1]
      exact hgood
  congr h hv := ⟨h.1.congr hv, h.2⟩

/-- What holds of the configuration from the start goes on to hold if it holds of whatever is set. -/
theorem Tended.step_good {c : Command}
    (h : Tended (fun e value => e.Mirrored value ∧ good e.config) s id edge ref i)
    (hc : Setting edge c ∧ ∀ j, c = .update edge (.config j) → good j) (n : Nat) :
    ∃ i', Tended (fun e value => e.Mirrored value ∧ good e.config) (s.run n c).1 id edge ref i' := by
  obtain ⟨hset, hj⟩ := hc
  cases hset with
  | upkeep hc =>
    have hallowed {u : Edge.Update} (hu : u.Settable) :
        u.WellFormed ∧ ∀ j, u = .config j → good j := by
      refine ⟨hu.wellFormed, ?_⟩
      rintro j rfl
      exact hg.documentary hu.documentary
    exact (Tended.step (lasting_good hg) h hallowed hc n).1
  | config j hc hf =>
    have hallowed : (Edge.Update.config j).WellFormed ∧ ∀ j', Edge.Update.config j = .config j' → good j' := by
      refine ⟨⟨hc, hf⟩, fun j' he => ?_⟩
      obtain rfl := Edge.Update.config.inj he
      exact hj j rfl
    exact ⟨_, (Tended.run_update (lasting_good hg) h hallowed n).1⟩

/-- Something that is seen of a run exactly if the configuration has a property is seen throughout exactly
if whatever was set has it. -/
theorem Tended.throughout_iff (seen : Simulation → Prop)
    (hseen : ∀ {s i}, Tended Edge.Mirrored s id edge ref i → (seen s ↔ good i.edge.config))
    (h : Tended Edge.Mirrored s id edge ref i) (hi : good i.edge.config) {cs : List (Nat × Command)}
    (hcs : ∀ c ∈ cs, Setting edge c.2) :
    (∀ before rest, cs = before ++ rest → seen (s.runAll before)) ↔
      ∀ n j, (n, .update edge (.config j)) ∈ cs → good j := by
  constructor
  · intro hall n j hmem
    obtain ⟨before, rest, rfl⟩ := List.append_of_mem hmem
    obtain ⟨i', hbefore⟩ := Tended.runAll (fun h hc n => (h.step_setting hc n).1) h
      fun c hc => hcs c (List.mem_append_left _ hc)
    have hset := (hcs (n, .update edge (.config j)) (by simp)).wellFormed
    obtain ⟨hafter, -⟩ := hbefore.run_update Edge.lasting_mirrored hset n
    have hrun : s.runAll (before ++ [(n, .update edge (.config j))]) =
        ((s.runAll before).run n (.update edge (.config j))).1 := by
      rw [Simulation.runAll, List.foldl_append]
      rfl
    have hgood := hall (before ++ [(n, .update edge (.config j))]) rest (by simp)
    rw [hrun] at hgood
    exact (hg.update i'.edge j).mp ((hseen hafter).mp hgood)
  · rintro hall before rest rfl
    -- the property goes along with the record as one relation, so that a run keeps both
    have hkind : ∀ c ∈ before, Setting edge c.2 ∧ ∀ j, c.2 = .update edge (.config j) → good j := by
      rintro ⟨n, c⟩ hc
      refine ⟨hcs _ (List.mem_append_left _ hc), ?_⟩
      rintro j rfl
      exact hall n j (List.mem_append_left _ hc)
    obtain ⟨i', hafter⟩ := Tended.runAll (fun h hc n => h.step_good hg hc n) { h with shown := ⟨h.shown, hi⟩ } hkind
    exact (hseen (hafter.mono And.left)).mpr hafter.shown.2

end Throughout

/-- Until when an edge that a refresh has returned can be read while it is set. -/
structure Readable (first : Simulation × Report) (id : EdgeId) (edge : String)
    (cs : List (Nat × Command)) (ref : EdgeRef) : Prop where
  /-- Its configuration is an object at every time exactly if all that was set as one are objects. -/
  object : (∀ before rest, cs = before ++ rest →
      ∃ e members, (first.1.runAll before).edge? ref = some e ∧ e.config = .object members) ↔
    ∀ k j, (k, .update edge (.config j)) ∈ cs → ∃ members, j = .object members
  /-- It can be refreshed at every time exactly if all that was set as its configuration can be stored. -/
  refreshable : (∀ before rest, cs = before ++ rest → ∀ n keep, ∃ e,
      ((first.1.runAll before).run n (.refresh id keep)).2.outcome = some (.edge e) ∧ e.id = id) ↔
    ∀ k j, (k, .update edge (.config j)) ∈ cs → j.Documentary

theorem readable_iff (hc : s.Calm id) {r : Directory.Record} {record : EdgeRecord}
    (hr : s.directory.record? id.value = some r)
    (hd : EdgeRecord.decodeFor id (Directory.Memory.select id.value EdgeRecord.fields r) = .ok record)
    (edge : String) {cs : List (Nat × Command)} (hcs : ∀ c ∈ cs, Setting edge c.2) (n : Nat) :
    let first := s.run n (.refresh id (some edge))
    ∃ e ref, Returned first edge cs e ref ∧ Readable first id edge cs ref := by
  intro first
  obtain ⟨i, ref, hfirst, hupkept⟩ := upkept_refresh hc hr hd n edge
  have htended := Tended.mono hupkept fun h => h.mirrored
  obtain ⟨text, members, -, hparse, hobject⟩ := hupkept.shown.config
  have hdocumentary : i.edge.config.Documentary := by
    rw [hobject]
    exact Json.documentary_of_parse hparse
  have hreturned : Returned first edge cs i.edge ref := htended.returned Tended.step_setting hfirst hcs
  refine ⟨i.edge, ref, hreturned, ⟨?_, ?_⟩⟩
  · exact htended.throughout_iff settled_object
      (fun s => ∃ e members, s.edge? ref = some e ∧ e.config = .object members)
      (fun h => h.object_iff) ⟨members, hobject⟩ hcs
  · exact htended.throughout_iff settled_documentary
      (fun s => ∀ n keep, ∃ e, (s.run n (.refresh id keep)).2.outcome = some (.edge e) ∧ e.id = id)
      (fun h => h.refreshable_iff) hdocumentary hcs

section Start

open Service (edgeOne)

/-- A limit of one and a half. -/
def fractionalLimit : Json := .object [("limit", .number (.real ⟨0x3FF8000000000000⟩))]

/-- Commands that set the meter anew, once with a fraction in its configuration. -/
def setting : List (Nat × Command) :=
  [(2, .update "meter" (.config fractionalLimit)), (3, .flush), (4, .update "meter" (.soc 7))]

theorem documentary_fractionalLimit : fractionalLimit.Documentary :=
  ⟨⟨_, rfl⟩, by decide⟩

theorem readable_iff_setting :
    let first := metered.run 1 (.refresh edgeOne (some "meter"))
    ∀ before rest, setting = before ++ rest → ∀ n keep, ∃ e,
      ((first.1.runAll before).run n (.refresh edgeOne keep)).2.outcome = some (.edge e) ∧
        e.id = edgeOne := by
  have hrecord : metered.directory.record? edgeOne.value =
      some (Ordered.insert Field.id.key (.ofNat 1) meterRecord) := rfl
  have hcanonical : fractionalLimit.Canonical := ⟨List.pairwise_singleton _ _, trivial, trivial⟩
  have hlimit : Decimal.Double.Finite ⟨0x3FF8000000000000⟩ := by decide
  have hfinite : fractionalLimit.Finite := ⟨hlimit, trivial⟩
  have hcs : ∀ c ∈ setting, Setting "meter" c.2 := by
    simp only [setting, List.forall_mem_cons]
    exact ⟨.config _ hcanonical hfinite, .upkeep .flush, .upkeep (.update _ trivial), by simp⟩
  have hset : ∀ k j, (k, Command.update "meter" (.config j)) ∈ setting → j.Documentary := by
    intro k j hmem
    simp only [setting, List.mem_cons, Prod.mk.injEq, Command.update.injEq, Edge.Update.config.injEq,
      reduceCtorEq, and_false, true_and, List.not_mem_nil, or_false] at hmem
    rw [hmem.2]
    exact documentary_fractionalLimit
  obtain ⟨e, ref, -, hreadable⟩ :=
    readable_iff ((calm_start {} _ _ _).device 0 1 meterRecord) hrecord decodeFor_meterRecord "meter" hcs 1
  exact hreadable.refreshable.mpr hset

/-- A record with no field but its identifier is put into the directory. -/
def blank : Simulation := ((start {} none 30).run 0 (.device 1 [])).1

/-- An edge whose configuration is set to a list cannot be refreshed any more. -/
theorem not_readable_list :
    let first := blank.run 1 (.refresh edgeOne (some "e"))
    let after := (first.1.run 2 (.update "e" (.config (.array [.ofInt 1, .ofInt 2])))).1
    ∃ e ref e', first.2.outcome = some (.edge e) ∧ first.1.kept? "e" = some ref ∧
      after.edge? ref = some e' ∧ (¬ ∃ members, e'.config = .object members) ∧
      (after.run 3 (.refresh edgeOne none)).2.outcome = some .nothing := by
  intro first after
  have hcalm : blank.Calm edgeOne := (calm_start {} _ _ _).device 0 1 []
  have hrecord : blank.directory.record? edgeOne.value = some [(Field.id.key, .ofNat 1)] := rfl
  have hdecode : EdgeRecord.decodeFor edgeOne (Directory.Memory.select edgeOne.value EdgeRecord.fields
      [(Field.id.key, .ofNat 1)]) = .ok ⟨edgeOne, "", "", "", "", [], none, none, .inactive⟩ := by
    apply EdgeRecord.decodeFor_select_iff.mpr
    exact ⟨rfl, ⟨rfl, rfl, rfl, rfl, rfl, ⟨"", rfl, rfl⟩, ⟨"", rfl, rfl⟩⟩, "", [], rfl, rfl, rfl⟩
  obtain ⟨i, ref, hfirst, hupkept⟩ := upkept_refresh hcalm hrecord hdecode 1 "e"
  have hone : Json.minInteger ≤ 1 ∧ 1 ≤ Json.maxInteger := by decide
  have htwo : Json.minInteger ≤ 2 ∧ 2 ≤ Json.maxInteger := by decide
  have hlist : (Edge.Update.config (.array [.ofInt 1, .ofInt 2])).WellFormed :=
    ⟨⟨hone, htwo, trivial⟩, trivial, trivial, trivial⟩
  obtain ⟨hafter, -⟩ := (Tended.mono hupkept fun h => h.mirrored).run_update Edge.lasting_mirrored hlist 2
  have hnot : ¬ ∃ members, (i.edge.update (.config (.array [.ofInt 1, .ofInt 2]))).1.config =
      .object members := by
    rw [settled_object.update]
    simp
  exact ⟨i.edge, ref, _, hfirst, hupkept.kept, hafter.edge?, hnot,
    (hafter.refresh_iff 3 none).2 fun h => hnot h.1⟩

end Start

end EdgeFleet.Simulation
