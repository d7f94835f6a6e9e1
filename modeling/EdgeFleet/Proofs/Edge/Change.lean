import EdgeFleet.WriteBack.Pending

namespace EdgeFleet

namespace Json

mutual

theorem same_self (j : Json) : same j j = true := by
  cases j with
  | null => rfl
  | bool b => simp [same]
  | number n => cases n <;> simp [same, sameNumber, Decimal.Double.same]
  | text s => simp [same]
  | array items => exact sameItems_self items
  | object members => exact sameMembers_self members

theorem sameItems_self (items : List Json) : sameItems items items = true := by
  cases items with
  | nil => rfl
  | cons a rest => rw [sameItems, same_self a, sameItems_self rest]; rfl

theorem sameMembers_self (members : Members) : sameMembers members members = true := by
  cases members with
  | nil => rfl
  | cons m rest =>
    obtain ⟨k, a⟩ := m
    rw [sameMembers, same_self a, sameMembers_self rest]
    simp

end

end Json

namespace Edge

open Directory (Field)
open WriteBack (Effect effect)

/-- The text under which the directory stores what the edge holds for a field, for the fields that
are stored at once. -/
def content? (e : Edge) : Field → Option String
  | .state => some e.state.name
  | .version => some e.version
  | .config => some e.config.pretty
  | .soc => e.soc.map fun n => String.ofList (Json.integerChars n.toInt)
  | .ipv4 => e.ipv4.map (·.render)
  | .id | .apikey | .name | .comment | .productType | .lastMessage | .lastUpdate => none

/-- Whether two edges hold different values for a field that is stored at once. -/
def Differ (e e' : Edge) : Field → Prop
  | .state => e.state ≠ e'.state
  | .version => e.version ≠ e'.version
  | .config => e.config.same e'.config = false
  | .soc => e.soc ≠ e'.soc
  | .ipv4 => e.ipv4 ≠ e'.ipv4
  | .id | .apikey | .name | .comment | .productType | .lastMessage | .lastUpdate => False

theorem not_differ_self (e : Edge) (field : Field) : ¬ e.Differ e field := by
  cases field <;> simp [Differ, Json.same_self]

/-- The field that an update is about, if it is stored at once. -/
def Update.field? : Update → Option Field
  | .online _ => some .state
  | .config _ => some .config
  | .version _ => some .version
  | .soc _ => some .soc
  | .ipv4 _ => some .ipv4
  | .message _ | .data _ => none

theorem update_of_ne {u : Update} {field : Field} (h : u.field? ≠ some field) (e : Edge) :
    (e.update u).1.content? field = e.content? field ∧ ¬ e.Differ (e.update u).1 field := by
  have hself := not_differ_self e field
  cases u with
  | online online =>
    simp only [update]
    split
    · cases field <;> first | exact absurd rfl h | exact ⟨rfl, hself⟩
    · cases field <;> exact ⟨rfl, hself⟩
  | config config =>
    simp only [update]
    split
    · exact ⟨rfl, hself⟩
    · cases field <;> first | exact absurd rfl h | exact ⟨rfl, hself⟩
  | version version =>
    simp only [update]
    split
    · exact ⟨rfl, hself⟩
    · cases field <;> first | exact absurd rfl h | exact ⟨rfl, hself⟩
  | soc soc => cases field <;> first | exact absurd rfl h | exact ⟨rfl, hself⟩
  | ipv4 ipv4 => cases field <;> first | exact absurd rfl h | exact ⟨rfl, hself⟩
  | message time => cases field <;> exact ⟨rfl, hself⟩
  | data time => cases field <;> exact ⟨rfl, hself⟩

theorem field?_of_differ {e : Edge} {u : Update} {field : Field}
    (h : e.Differ (e.update u).1 field) : u.field? = some field := by
  apply Decidable.byContradiction
  intro hne
  exact (update_of_ne hne e).2 h

/-- What an update does to the field that it is about. -/
inductive Outcome (e e' : Edge) (field : Field) : Option Effect → Prop
  | changed (text : String) (hd : e.Differ e' field) (hc : e'.content? field = some text) :
      Outcome e e' field (some (.store field (.text text)))
  | unchanged (hd : ¬ e.Differ e' field) (hc : e'.content? field = e.content? field) :
      Outcome e e' field none

theorem outcome_update {u : Update} {field : Field} (h : u.field? = some field) (e : Edge) :
    Outcome e (e.update u).1 field ((e.update u).2.map effect) := by
  have hself (field : Field) : Outcome e e field none := .unchanged (not_differ_self e field) rfl
  cases u with
  | online online =>
    cases h
    simp only [update]
    split
    · rename_i ho
      refine .changed _ ?_ rfl
      simp [Differ, ho.2]
    · exact .unchanged (by simp [Differ]) rfl
  | config config =>
    cases h
    simp only [update]
    split
    · exact hself .config
    · rename_i hs
      exact .changed _ (by simpa [Differ] using hs) rfl
  | version version =>
    cases h
    simp only [update]
    split
    · exact hself .version
    · rename_i hv
      exact .changed _ hv rfl
  | soc soc =>
    cases h
    simp only [update]
    split
    · rename_i hs
      exact .unchanged (by simp [Differ, hs]) (by simp [content?, hs])
    · rename_i hs
      exact .changed _ hs rfl
  | ipv4 ipv4 =>
    cases h
    simp only [update]
    split
    · rename_i hs
      exact .unchanged (by simp [Differ, hs]) (by simp [content?, hs])
    · rename_i hs
      exact .changed _ hs rfl
  | message time => cases h
  | data time => cases h

theorem effect_of_field?_none {u : Update} (h : u.field? = none) (e : Edge) :
    ∃ signal, (e.update u).2.map effect = some (.mark signal) := by
  cases u with
  | message time => exact ⟨.message, rfl⟩
  | data time => exact ⟨.data, rfl⟩
  | online online => cases h
  | config config => cases h
  | version version => cases h
  | soc soc => cases h
  | ipv4 ipv4 => cases h

/-- An update stores a field exactly if it changes it, and it stores the text of the new value. -/
theorem store_update_iff {e : Edge} {u : Update} {field : Field} {value : Json} :
    (e.update u).2.map effect = some (.store field value) ↔
      e.Differ (e.update u).1 field ∧
        ∃ text, (e.update u).1.content? field = some text ∧ value = .text text := by
  cases hu : u.field? with
  | none =>
    obtain ⟨signal, hs⟩ := effect_of_field?_none hu e
    constructor
    · intro h
      rw [hs] at h
      cases h
    · rintro ⟨hd, -⟩
      exact absurd hd (update_of_ne (by simp [hu]) e).2
  | some own =>
    have ho := outcome_update hu e
    constructor
    · intro h
      rw [h] at ho
      cases ho with
      | changed text hd hc => exact ⟨hd, text, hc, rfl⟩
    · rintro ⟨hd, text, hc, rfl⟩
      obtain rfl := Option.some.inj (hu.symm.trans (field?_of_differ hd))
      generalize (e.update u).2.map effect = effect at ho
      cases ho with
      | changed text' hd' hc' =>
        rw [hc] at hc'
        cases hc'
        rfl
      | unchanged hd' hc' => exact absurd hd hd'

theorem content?_update_of_differ {e : Edge} {u : Update} {field : Field}
    (h : e.Differ (e.update u).1 field) : ∃ text, (e.update u).1.content? field = some text := by
  have ho := outcome_update (field?_of_differ h) e
  generalize (e.update u).2.map effect = effect at ho
  cases ho with
  | changed text hd hc => exact ⟨text, hc⟩
  | unchanged hd hc => exact absurd h hd

theorem content?_update_of_not_differ {e : Edge} {u : Update} {field : Field}
    (h : ¬ e.Differ (e.update u).1 field) : (e.update u).1.content? field = e.content? field := by
  by_cases hu : u.field? = some field
  · have ho := outcome_update hu e
    generalize (e.update u).2.map effect = effect at ho
    cases ho with
    | changed text hd hc => exact absurd hd h
    | unchanged hd hc => exact hc
  · exact (update_of_ne hu e).1

theorem field_of_differ {e e' : Edge} {field : Field} (h : e.Differ e' field) :
    field ∈ [Field.state, .version, .config, .soc, .ipv4] := by
  cases field <;> first | exact h.elim | decide

end Edge

end EdgeFleet
