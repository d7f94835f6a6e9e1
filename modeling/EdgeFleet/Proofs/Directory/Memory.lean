import EdgeFleet.Directory.Memory
import Mathlib.Data.List.Induction

namespace EdgeFleet.Directory

namespace Field

theorem ofKey?_key (field : Field) : ofKey? field.key = some field := by
  cases field <;> rfl

theorem key_injective {field other : Field} (h : field.key = other.key) : field = other := by
  have he := ofKey?_key field
  rw [h, ofKey?_key] at he
  exact (Option.some.inj he).symm

end Field

/-- Whether a write sets a field of a record. -/
def Write.Sets (w : Write) (id : UInt32) (field : Field) : Prop := w.field = field ∧ id ∈ w.ids

instance (w : Write) (id : UInt32) (field : Field) : Decidable (w.Sets id field) :=
  inferInstanceAs (Decidable (_ ∧ _))

/-- The last of some writes that sets a field of a record. -/
def lastSetting? (id : UInt32) (field : Field) (ws : List Write) : Option Write :=
  (ws.filter (·.Sets id field)).getLast?

theorem lastSetting?_concat (id : UInt32) (field : Field) (ws : List Write) (w : Write) :
    lastSetting? id field (ws ++ [w]) =
      if w.Sets id field then some w else lastSetting? id field ws := by
  by_cases hw : w.Sets id field
  · simp [lastSetting?, List.filter_append, hw]
  · simp [lastSetting?, List.filter_append, hw]

theorem lastSetting?_append_of_none {id : UInt32} {field : Field} (ws : List Write)
    {more : List Write} (h : ∀ w ∈ more, ¬ w.Sets id field) :
    lastSetting? id field (ws ++ more) = lastSetting? id field ws := by
  have hnone : more.filter (·.Sets id field) = [] := by
    apply List.filter_eq_nil_iff.mpr
    intro w hw
    simpa using h w hw
  rw [lastSetting?, List.filter_append, hnone, List.append_nil, lastSetting?]

namespace Memory

/-- The value of a field of a record. -/
def value? (m : Memory) (id : UInt32) (field : Field) : Option Json :=
  (m.record? id).bind (Ordered.get? field.key)

/-- The directory after some writes, in order. -/
def writeAll (m : Memory) (ws : List Write) : Memory :=
  ws.foldl (fun m w => (m.write w.ids w.field w.value).1) m

theorem get?_store (records : List (UInt32 × Record)) (id other : UInt32) (field : Field)
    (value : Json) : Ordered.get? other (store records id field value) =
      if other = id then (Ordered.get? other records).map (Ordered.insert field.key value)
      else Ordered.get? other records := by
  cases hr : Ordered.get? id records with
  | none =>
    simp only [store, hr]
    split
    · rename_i ho
      rw [ho, hr]
      rfl
    · rfl
  | some r =>
    simp only [store, hr]
    split
    · rename_i ho
      rw [ho, Ordered.get?_insert_self, hr]
      rfl
    · rename_i ho
      rw [Ordered.get?_insert_of_ne ho]

/-- Setting a field twice to one value is setting it once. -/
theorem get?_storeAll (ids : List UInt32) (records : List (UInt32 × Record)) (other : UInt32)
    (field f : Field) (value : Json) :
    (Ordered.get? other (ids.foldl (fun records id => store records id field value) records)).bind
        (Ordered.get? f.key) =
      if field = f ∧ other ∈ ids then (Ordered.get? other records).map fun _ => value
      else (Ordered.get? other records).bind (Ordered.get? f.key) := by
  induction ids generalizing records with
  | nil => simp
  | cons id rest ih =>
    rw [List.foldl_cons, ih, get?_store]
    by_cases ho : other = id
    · subst ho
      simp only [if_true, List.mem_cons, true_or, and_true]
      by_cases hf : field = f
      · subst hf
        simp only [true_and, if_true]
        cases Ordered.get? other records with
        | none => simp
        | some r => simp [Ordered.get?_insert_self]
      · have hk : f.key ≠ field.key := fun he => hf (Field.key_injective he).symm
        simp only [hf, false_and, if_false]
        cases Ordered.get? other records with
        | none => rfl
        | some r => simp [Ordered.get?_insert_of_ne hk]
    · simp only [ho, if_false, List.mem_cons, false_or]

theorem writeAll_concat (m : Memory) (ws : List Write) (w : Write) :
    m.writeAll (ws ++ [w]) = ((m.writeAll ws).write w.ids w.field w.value).1 := List.foldl_append

theorem failReads_write (m : Memory) (ids : List UInt32) (field : Field) (value : Json) :
    (m.write ids field value).1.failReads = m.failReads := by
  unfold write
  split <;> rfl

theorem failReads_writeAll (m : Memory) (ws : List Write) :
    (m.writeAll ws).failReads = m.failReads := by
  induction ws using List.reverseRecOn with
  | nil => rfl
  | append_singleton ws w ih => rw [writeAll_concat, failReads_write, ih]

section Write

variable {m : Memory} (hf : m.failWrites = false)

include hf

theorem failWrites_write (ids : List UInt32) (field : Field) (value : Json) :
    (m.write ids field value).1.failWrites = false := by
  simp [write, hf]

theorem isSome_record?_write (ids : List UInt32) (field : Field) (value : Json) (id : UInt32) :
    ((m.write ids field value).1.record? id).isSome = (m.record? id).isSome := by
  simp only [write, hf, Bool.false_eq_true, if_false, record?]
  generalize m.records = records
  induction ids generalizing records with
  | nil => rfl
  | cons first rest ih =>
    rw [List.foldl_cons, ih, get?_store]
    split
    · exact Option.isSome_map
    · rfl

theorem value?_write {id : UInt32} (hr : (m.record? id).isSome = true) (w : Write) (field : Field) :
    (m.write w.ids w.field w.value).1.value? id field =
      if w.Sets id field then some w.value else m.value? id field := by
  obtain ⟨r, hr⟩ := Option.isSome_iff_exists.mp hr
  have hget : Ordered.get? id m.records = some r := hr
  have hs := get?_storeAll w.ids m.records id w.field field w.value
  simp only [write, hf, Bool.false_eq_true, if_false, value?, record?, hs, hget, Write.Sets]
  rfl

theorem failWrites_writeAll (ws : List Write) : (m.writeAll ws).failWrites = false := by
  induction ws using List.reverseRecOn with
  | nil => exact hf
  | append_singleton ws w ih =>
    rw [writeAll_concat]
    exact failWrites_write ih _ _ _

theorem isSome_record?_writeAll (ws : List Write) (id : UInt32) :
    ((m.writeAll ws).record? id).isSome = (m.record? id).isSome := by
  induction ws using List.reverseRecOn with
  | nil => rfl
  | append_singleton ws w ih =>
    rw [writeAll_concat, isSome_record?_write (failWrites_writeAll hf ws), ih]

/-- The last write that sets a field decides its value. -/
theorem value?_writeAll {id : UInt32} (hr : (m.record? id).isSome = true) (ws : List Write)
    (field : Field) :
    (m.writeAll ws).value? id field =
      ((lastSetting? id field ws).map (·.value)).or (m.value? id field) := by
  induction ws using List.reverseRecOn with
  | nil => rfl
  | append_singleton ws w ih =>
    have hthere : ((m.writeAll ws).record? id).isSome = true := by
      rw [isSome_record?_writeAll hf, hr]
    rw [writeAll_concat, lastSetting?_concat, value?_write (failWrites_writeAll hf ws) hthere, ih]
    split <;> rfl

end Write

end Memory

end EdgeFleet.Directory
