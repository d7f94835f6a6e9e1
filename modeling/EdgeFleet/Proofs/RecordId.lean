import EdgeFleet.Proofs.Text.Numeral
import EdgeFleet.RecordId

namespace EdgeFleet.RecordId

open Text (trim trimChars isBlank isBlankText)
open Text.Numeral (WritesNat)

variable {kind : RecordKind}

theorem value_injective {a b : RecordId kind} (h : a.value = b.value) : a = b := by
  cases a
  cases b
  cases h
  rfl

theorem toList_trim (s : String) : (trim s).toList = trimChars s.toList := by
  rw [trim, String.toList_ofList]

section Word

variable {n : Nat} (hn : n ≤ 4294967295)

include hn

theorem toNat_toUInt32 : n.toUInt32.toNat = n := UInt32.toNat_ofNat_of_lt' (Nat.lt_succ_of_le hn)

theorem ofWord_eq_ok_iff {id : RecordId kind} :
    ofWord n.toUInt32 = .ok id ↔ id.value.toNat = n := by
  constructor
  · intro h
    unfold ofWord at h
    split at h
    · cases h
    · obtain rfl := Except.ok.inj h
      exact toNat_toUInt32 hn
  · intro h
    have hvalue : n.toUInt32 = id.value := UInt32.toNat_inj.mp ((toNat_toUInt32 hn).trans h.symm)
    rw [hvalue, ofWord_value]

theorem ofWord_eq_zero_iff : @ofWord kind n.toUInt32 = .error .zero ↔ n = 0 := by
  have hzero : n.toUInt32 = 0 ↔ n = 0 := by
    rw [← UInt32.toNat_inj, toNat_toUInt32 hn, UInt32.toNat_zero]
  rw [← hzero, ofWord]
  split
  · rename_i h
    exact iff_of_true rfl h
  · rename_i h
    exact iff_of_false (by simp) h

omit hn in
theorem ofWord_ne_notANumber (w : UInt32) (text : String) :
    @ofWord kind w ≠ .error (.notANumber text) := by
  unfold ofWord
  split <;> simp

end Word

/-- A text is read as the number that its numeral writes, if that is in range, and is no number otherwise. -/
theorem parse_cases (s : String) :
    (∃ n, WritesNat (trim s).toList n ∧ n ≤ 4294967295 ∧
      @parse kind s = ofWord n.toUInt32) ∨
    ((∀ n, WritesNat (trim s).toList n → 4294967295 < n) ∧
      @parse kind s = .error (.notANumber s)) := by
  rw [toList_trim, parse]
  cases hread : Text.Numeral.unsigned? 0xFFFFFFFF (trimChars s.toList) with
  | some n =>
    obtain ⟨hw, hle⟩ := Text.Numeral.unsigned?_eq_some_iff.mp hread
    exact Or.inl ⟨n, hw, hle, rfl⟩
  | none =>
    refine Or.inr ⟨fun n hw => ?_, rfl⟩
    apply Nat.lt_of_not_le
    intro hle
    rw [Text.Numeral.unsigned?_eq_some_iff.mpr ⟨hw, hle⟩] at hread
    cases hread

theorem toNat_value_le (id : RecordId kind) : id.value.toNat ≤ 4294967295 :=
  Nat.le_of_lt_succ id.value.toNat_lt

theorem toNat_value_pos (id : RecordId kind) : 1 ≤ id.value.toNat := by
  apply Nat.pos_of_ne_zero
  intro h
  exact id.ne_zero (UInt32.toNat_inj.mp h)

/-- A text shows an identifier exactly if its numeral writes the identifier's number. -/
theorem parse_eq_ok_iff {s : String} {id : RecordId kind} :
    parse s = .ok id ↔ WritesNat (trim s).toList id.value.toNat := by
  rcases @parse_cases kind s with ⟨n, hw, hle, he⟩ | ⟨hnone, he⟩
  · rw [he, ofWord_eq_ok_iff hle]
    constructor
    · rintro rfl
      exact hw
    · intro hid
      exact hid.unique hw
  · rw [he]
    simp only [reduceCtorEq, false_iff]
    intro hid
    exact absurd (hnone _ hid) (Nat.not_lt_of_le id.toNat_value_le)

theorem parse_eq_zero_iff {s : String} :
    @parse kind s = .error .zero ↔ WritesNat (trim s).toList 0 := by
  rcases @parse_cases kind s with ⟨n, hw, hle, he⟩ | ⟨hnone, he⟩
  · rw [he, ofWord_eq_zero_iff hle]
    constructor
    · rintro rfl
      exact hw
    · intro hzero
      exact hw.unique hzero
  · rw [he]
    simp only [Except.error.injEq, reduceCtorEq, false_iff]
    intro hzero
    exact absurd (hnone 0 hzero) (Nat.not_lt_zero _)

theorem parse_eq_notANumber_iff {s text : String} :
    @parse kind s = .error (.notANumber text) ↔
      text = s ∧ ∀ n, WritesNat (trim s).toList n → 4294967295 < n := by
  rcases @parse_cases kind s with ⟨n, hw, hle, he⟩ | ⟨hnone, he⟩
  · rw [he]
    constructor
    · intro h
      exact absurd h (ofWord_ne_notANumber _ text)
    · rintro ⟨-, hnone⟩
      exact absurd (hnone n hw) (Nat.not_lt_of_le hle)
  · rw [he, Except.error.injEq, IdError.notANumber.injEq, eq_comm]
    exact (and_iff_left hnone).symm

/-- The texts of an identifier: its digits behind any number of zeros and behind a plus or none, with white
space around them. -/
theorem parse_eq_ok_iff_text {s : String} {id : RecordId kind} :
    parse s = .ok id ↔ ∃ before sign zeros after, before.all isBlank = true ∧
      after.all isBlank = true ∧ (sign = [] ∨ sign = ['+']) ∧
      s.toList = before ++ (sign ++ List.replicate zeros '0' ++ id.render.toList) ++ after := by
  have hdigits : id.render.toList = Nat.toDigits 10 id.value.toNat := by
    rw [render, Text.decimal, String.toList_ofList]
  rw [parse_eq_ok_iff, toList_trim, hdigits]
  constructor
  · intro hw
    obtain ⟨sign, zeros, hsign, hcore⟩ := Text.Numeral.writesNat_iff.mp hw
    obtain ⟨-, before, after, hb, ha, hs⟩ := Text.trimChars_eq_iff.mp hcore
    exact ⟨before, sign, zeros, after, hb, ha, hsign, hs⟩
  · rintro ⟨before, sign, zeros, after, hb, ha, hsign, hs⟩
    have hw : WritesNat (sign ++ List.replicate zeros '0' ++ Nat.toDigits 10 id.value.toNat)
        id.value.toNat := Text.Numeral.writesNat_iff.mpr ⟨sign, zeros, hsign, rfl⟩
    have hcore := Text.trimChars_of_no_blank hw.writes.not_isBlank
    rwa [Text.trimChars_eq_iff.mpr ⟨hcore, before, after, hb, ha, hs⟩]

/-- What becomes of a text that is to show an identifier: this is told by the numeral that is left of it
without the white space at its ends. -/
structure Outcomes (kind : RecordKind) : Prop where
  ok : ∀ (s : String) (n : Nat), (∃ id : RecordId kind, parse s = .ok id ∧ id.value.toNat = n) ↔
    WritesNat (trim s).toList n ∧ 1 ≤ n ∧ n ≤ 4294967295
  zero : ∀ s, @parse kind s = .error .zero ↔ WritesNat (trim s).toList 0
  notANumber : ∀ s text, @parse kind s = .error (.notANumber text) ↔
    text = s ∧ ¬ ∃ n, WritesNat (trim s).toList n ∧ n ≤ 4294967295
  /-- The texts of an identifier are its digits behind any number of zeros, and behind a plus or none, with
  white space around them. -/
  texts : ∀ s (id : RecordId kind), parse s = .ok id ↔ ∃ before sign zeros after,
    before.all isBlank = true ∧ after.all isBlank = true ∧ (sign = [] ∨ sign = ['+']) ∧
    s.toList = before ++ (sign ++ List.replicate zeros '0' ++ id.render.toList) ++ after
  around : ∀ (id : RecordId kind) (before after : String), isBlankText before = true →
    isBlankText after = true → parse (before ++ id.render ++ after) = .ok id

theorem parse_outcomes : Outcomes kind where
  ok s n := by
    constructor
    · rintro ⟨id, hid, rfl⟩
      exact ⟨parse_eq_ok_iff.mp hid, id.toNat_value_pos, id.toNat_value_le⟩
    · rintro ⟨hw, hpos, hle⟩
      have hword := toNat_toUInt32 hle
      have hne : n.toUInt32 ≠ 0 := by
        intro h
        rw [h, UInt32.toNat_zero] at hword
        omega
      exact ⟨⟨n.toUInt32, hne⟩, parse_eq_ok_iff.mpr (hword.symm ▸ hw), hword⟩
  zero s := parse_eq_zero_iff
  notANumber s text := by
    rw [parse_eq_notANumber_iff]
    simp only [not_exists, not_and, Nat.not_le]
  texts s id := parse_eq_ok_iff_text
  around id before after hb ha := by
    apply parse_eq_ok_iff_text.mpr
    refine ⟨before.toList, [], 0, after.toList, hb, ha, Or.inl rfl, ?_⟩
    rw [String.toList_append, String.toList_append]
    rfl

/-- The greatest identifier. -/
def lastUser : UserId := ⟨4294967295, nofun⟩

/-- Zeros, a plus and white space of any kind are passed over; a number that needs 33 bits is none. -/
theorem parse_outcomes_padded :
    (∃ id : EdgeId, parse "\u2003+00042\n" = .ok id ∧ id.value.toNat = 42) ∧
      WritesNat (trim "\u2003+00042\n").toList 42 ∧
      @parse .user " 000 " = .error .zero ∧ WritesNat (trim " 000 ").toList 0 ∧
      @parse .user "0004294967296" = .error (.notANumber "0004294967296") ∧
      (¬ ∃ n, WritesNat (trim "0004294967296").toList n ∧ n ≤ 4294967295) ∧
      isBlankText "\t\u3000" = true ∧ isBlankText "\u00A0" = true ∧
      parse ("\t\u3000" ++ lastUser.render ++ "\u00A0") = .ok lastUser := by
  have hedge : Outcomes .edge := parse_outcomes
  have huser : Outcomes .user := parse_outcomes
  have hok : ∃ id : EdgeId, parse "\u2003+00042\n" = .ok id ∧ id.value.toNat = 42 :=
    ⟨⟨42, nofun⟩, rfl, rfl⟩
  have hnull : @parse .user " 000 " = .error .zero := rfl
  have hlarge : @parse .user "0004294967296" = .error (.notANumber "0004294967296") := rfl
  exact ⟨hok, ((hedge.ok _ 42).mp hok).1, hnull, (huser.zero _).mp hnull, hlarge,
    ((huser.notANumber _ _).mp hlarge).2, rfl, rfl, huser.around lastUser _ _ rfl rfl⟩

end EdgeFleet.RecordId
