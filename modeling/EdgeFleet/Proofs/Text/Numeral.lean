import EdgeFleet.Proofs.Text.Digits

namespace EdgeFleet.Text.Numeral

/-- Whether the characters are one or more digits. -/
def Digits (cs : List Char) : Prop := cs ≠ [] ∧ ∀ c ∈ cs, isDigit c = true

/-- Whether the characters write an integer: one or more digits, which may follow a sign. -/
inductive Writes : List Char → Int → Prop
  | plain {ds : List Char} (h : Digits ds) : Writes ds (value ds)
  | plus {ds : List Char} (h : Digits ds) : Writes ('+' :: ds) (value ds)
  | minus {ds : List Char} (h : Digits ds) : Writes ('-' :: ds) (-(value ds : Int))

/-- Whether the characters write a natural number: one or more digits, which may follow a plus. -/
inductive WritesNat : List Char → Nat → Prop
  | plain {ds : List Char} (h : Digits ds) : WritesNat ds (value ds)
  | plus {ds : List Char} (h : Digits ds) : WritesNat ('+' :: ds) (value ds)

theorem digits?_eq_some {cs : List Char} {n : Nat} :
    digits? cs = some n ↔ Digits cs ∧ value cs = n := by
  rw [digits?_eq_some_iff, Digits, and_assoc]

theorem digits_toDigits (n : Nat) : Digits (Nat.toDigits 10 n) :=
  ⟨Nat.toDigits_ne_nil, fun _ hc => isDigit_of_mem_toDigits hc⟩

theorem Digits.not_isBlank {cs : List Char} (h : Digits cs) : ∀ c ∈ cs, isBlank c = false :=
  fun c hc => not_isBlank_of_isDigit (h.2 c hc)

theorem Digits.head_ne {c : Char} (hc : isDigit c = false) {cs rest : List Char} (h : Digits cs) :
    cs ≠ c :: rest := by
  rintro rfl
  have hd := h.2 c List.mem_cons_self
  rw [hc] at hd
  cases hd

theorem Writes.ne_nil {cs : List Char} {n : Int} (h : Writes cs n) : cs ≠ [] := by
  cases h with
  | plain hds => exact hds.1
  | plus => exact List.cons_ne_nil _ _
  | minus => exact List.cons_ne_nil _ _

theorem Writes.not_isBlank {cs : List Char} {n : Int} (h : Writes cs n) :
    ∀ c ∈ cs, isBlank c = false := by
  cases h with
  | plain hds => exact hds.not_isBlank
  | plus hds => exact List.forall_mem_cons.mpr ⟨rfl, hds.not_isBlank⟩
  | minus hds => exact List.forall_mem_cons.mpr ⟨rfl, hds.not_isBlank⟩

theorem WritesNat.writes {cs : List Char} {n : Nat} (h : WritesNat cs n) : Writes cs n := by
  cases h with
  | plain hds => exact .plain hds
  | plus hds => exact .plus hds

section Signs

variable {limit : Nat} {ds : List Char}

theorem unsigned?_plus : unsigned? limit ('+' :: ds) = (digits? ds).filter (· ≤ limit) := rfl

theorem unsigned?_plain (h : ∀ rest, ds ≠ '+' :: rest) :
    unsigned? limit ds = (digits? ds).filter (· ≤ limit) := by
  unfold unsigned?
  split
  · rename_i rest
    exact absurd rfl (h rest)
  · rfl

theorem signed?_minus :
    signed? limit ('-' :: ds) =
      ((digits? ds).filter (· ≤ limit + 1)).map fun n : Nat => -(n : Int) := by
  rw [signed?]
  cases (digits? ds).filter (· ≤ limit + 1) <;> rfl

theorem signed?_plain (h : ∀ rest, ds ≠ '-' :: rest) :
    signed? limit ds = (unsigned? limit ds).map fun n : Nat => (n : Int) := by
  unfold signed?
  split
  · rename_i rest
    exact absurd rfl (h rest)
  · cases unsigned? limit ds <;> rfl

end Signs

/-- A numeral without a minus is read as the natural number that it writes, if that is not too large. -/
theorem unsigned?_eq_some_iff {limit : Nat} {cs : List Char} {n : Nat} :
    unsigned? limit cs = some n ↔ WritesNat cs n ∧ n ≤ limit := by
  constructor
  · intro hn
    by_cases hplus : ∃ rest, cs = '+' :: rest
    · obtain ⟨ds, rfl⟩ := hplus
      rw [unsigned?_plus, Option.filter_eq_some_iff, digits?_eq_some] at hn
      obtain ⟨⟨hds, rfl⟩, hle⟩ := hn
      exact ⟨.plus hds, of_decide_eq_true hle⟩
    · rw [unsigned?_plain (not_exists.mp hplus), Option.filter_eq_some_iff, digits?_eq_some] at hn
      obtain ⟨⟨hds, rfl⟩, hle⟩ := hn
      exact ⟨.plain hds, of_decide_eq_true hle⟩
  · rintro ⟨hw, hle⟩
    cases hw with
    | plain hds =>
      rw [unsigned?_plain fun rest => hds.head_ne (by decide), digits?_eq_some.mpr ⟨hds, rfl⟩]
      simp [Option.filter, hle]
    | @plus ds hds =>
      rw [unsigned?_plus, digits?_eq_some.mpr ⟨hds, rfl⟩]
      simp [Option.filter, hle]

theorem WritesNat.unique {cs : List Char} {m n : Nat} (hm : WritesNat cs m) (hn : WritesNat cs n) :
    m = n := by
  have hm' : unsigned? (max m n) cs = some m := unsigned?_eq_some_iff.mpr ⟨hm, Nat.le_max_left m n⟩
  have hn' : unsigned? (max m n) cs = some n := unsigned?_eq_some_iff.mpr ⟨hn, Nat.le_max_right m n⟩
  exact Option.some.inj (hm'.symm.trans hn')

/-- Without a minus, an integer is written as the natural number that it is. -/
theorem writes_iff_writesNat {cs : List Char} (h : ∀ rest, cs ≠ '-' :: rest) {n : Int} :
    Writes cs n ↔ ∃ k : Nat, WritesNat cs k ∧ n = k := by
  constructor
  · intro hw
    cases hw with
    | plain hds => exact ⟨_, .plain hds, rfl⟩
    | plus hds => exact ⟨_, .plus hds, rfl⟩
    | minus => exact absurd rfl (h _)
  · rintro ⟨k, hw, rfl⟩
    exact hw.writes

/-- A numeral is read as the integer that it writes, if that is in range. -/
theorem signed?_eq_some_iff {limit : Nat} {cs : List Char} {n : Int} :
    signed? limit cs = some n ↔ Writes cs n ∧ -(limit + 1 : Int) ≤ n ∧ n ≤ limit := by
  by_cases hminus : ∃ rest, cs = '-' :: rest
  · obtain ⟨ds, rfl⟩ := hminus
    simp only [signed?_minus, Option.map_eq_some_iff, Option.filter_eq_some_iff, digits?_eq_some,
      decide_eq_true_eq]
    constructor
    · rintro ⟨k, ⟨⟨hds, rfl⟩, hle⟩, rfl⟩
      exact ⟨.minus hds, by omega, by omega⟩
    · rintro ⟨hw, hlo, hhi⟩
      cases hw with
      | plain hds => exact absurd rfl (hds.head_ne (by decide))
      | minus hds => exact ⟨_, ⟨⟨hds, rfl⟩, by omega⟩, rfl⟩
  · have hplain := not_exists.mp hminus
    simp only [signed?_plain hplain, Option.map_eq_some_iff, unsigned?_eq_some_iff,
      writes_iff_writesNat hplain]
    constructor
    · rintro ⟨k, ⟨hw, hle⟩, rfl⟩
      exact ⟨⟨k, hw, rfl⟩, by omega, by omega⟩
    · rintro ⟨⟨k, hw, rfl⟩, hlo, hhi⟩
      exact ⟨k, ⟨hw, by omega⟩, rfl⟩

theorem digitChar_digit {c : Char} (h : isDigit c = true) :
    digit c < 10 ∧ (digit c).digitChar = c := by
  simp only [isDigit, Bool.and_eq_true, decide_eq_true_eq, Char.le_def, UInt32.le_iff_toNat_le] at h
  have hlo : 48 ≤ c.toNat := h.1
  have hhi : c.toNat ≤ 57 := h.2
  have hd : digit c = c.toNat - 48 := rfl
  have hlt : digit c < 10 := by omega
  refine ⟨hlt, Char.toNat_inj.mp ?_⟩
  rw [Nat.toNat_digitChar_of_lt_ten hlt]
  omega

theorem toDigits_extend {ds : List Char} (hds : ∀ c ∈ ds, isDigit c = true) {n : Nat} (hn : 0 < n) :
    Nat.toDigits 10 (extend n ds) = Nat.toDigits 10 n ++ ds := by
  induction ds generalizing n with
  | nil => exact (List.append_nil _).symm
  | cons c ds ih =>
    obtain ⟨hlt, hchar⟩ := digitChar_digit (hds c List.mem_cons_self)
    have hnext := ih (fun d hd => hds d (List.mem_cons_of_mem c hd)) (n := 10 * n + digit c) (by omega)
    calc Nat.toDigits 10 (extend n (c :: ds))
        = Nat.toDigits 10 (10 * n + digit c) ++ ds := hnext
      _ = Nat.toDigits 10 n ++ [c] ++ ds := by
        rw [← Nat.toDigits_append_toDigits (by decide) hn hlt, Nat.toDigits_of_lt_base hlt, hchar]
      _ = Nat.toDigits 10 n ++ c :: ds := by rw [List.append_assoc, List.singleton_append]

theorem toDigits_value {ds : List Char} (h : Digits ds) (hz : ds.head? = some '0' → ds = ['0']) :
    Nat.toDigits 10 (value ds) = ds := by
  obtain ⟨hne, hds⟩ := h
  obtain ⟨c, rest, rfl⟩ := List.exists_cons_of_ne_nil hne
  obtain ⟨hlt, hchar⟩ := digitChar_digit (hds c List.mem_cons_self)
  by_cases hc : c = '0'
  · rw [hz (by rw [hc]; rfl)]
    rfl
  · have hpos : 0 < digit c := by
      apply Nat.pos_of_ne_zero
      intro h0
      rw [h0] at hchar
      exact hc hchar.symm
    calc Nat.toDigits 10 (value (c :: rest))
        = Nat.toDigits 10 (extend (digit c) rest) := by simp [value, extend]
      _ = Nat.toDigits 10 (digit c) ++ rest :=
        toDigits_extend (fun d hd => hds d (List.mem_cons_of_mem c hd)) hpos
      _ = c :: rest := by rw [Nat.toDigits_of_lt_base hlt, hchar, List.singleton_append]

theorem value_zeros_append (zeros : Nat) (ds : List Char) :
    value (List.replicate zeros '0' ++ ds) = value ds := by
  induction zeros with
  | zero => rfl
  | succ zeros ih =>
    have hzero : value ('0' :: (List.replicate zeros '0' ++ ds)) =
        value (List.replicate zeros '0' ++ ds) := rfl
    rw [List.replicate_succ, List.cons_append, hzero, ih]

theorem digits_iff_zeros {ds : List Char} {n : Nat} :
    Digits ds ∧ value ds = n ↔ ∃ zeros, ds = List.replicate zeros '0' ++ Nat.toDigits 10 n := by
  constructor
  · rintro ⟨hds, rfl⟩
    induction ds with
    | nil => exact absurd rfl hds.1
    | cons c ds ih =>
      by_cases hz : c = '0' ∧ ds ≠ []
      · obtain ⟨rfl, hne⟩ := hz
        obtain ⟨zeros, he⟩ := ih ⟨hne, fun d hd => hds.2 d (List.mem_cons_of_mem '0' hd)⟩
        refine ⟨zeros + 1, ?_⟩
        have hvalue : value ('0' :: ds) = value ds := value_zeros_append 1 ds
        rw [hvalue, List.replicate_succ, List.cons_append, ← he]
      · refine ⟨0, (toDigits_value hds fun hc => ?_).symm⟩
        obtain rfl := Option.some.inj hc
        have hnil : ds = [] := Decidable.of_not_not fun hne => hz ⟨rfl, hne⟩
        rw [hnil]
  · rintro ⟨zeros, rfl⟩
    obtain ⟨hne, hdigits⟩ := digits_toDigits n
    refine ⟨⟨fun hnil => hne (List.append_eq_nil_iff.mp hnil).2, fun c hc => ?_⟩, ?_⟩
    · rcases List.mem_append.mp hc with hc | hc
      · rw [List.eq_of_mem_replicate hc]
        rfl
      · exact hdigits c hc
    · rw [value_zeros_append, value_toDigits]

/-- A natural number is written in its digits, with any number of zeros and a plus in front, or not. -/
theorem writesNat_iff {cs : List Char} {n : Nat} :
    WritesNat cs n ↔ ∃ sign zeros, (sign = [] ∨ sign = ['+']) ∧
      cs = sign ++ List.replicate zeros '0' ++ Nat.toDigits 10 n := by
  constructor
  · intro hw
    cases hw with
    | plain hds =>
      obtain ⟨zeros, he⟩ := digits_iff_zeros.mp ⟨hds, rfl⟩
      exact ⟨[], zeros, Or.inl rfl, he⟩
    | @plus ds hds =>
      obtain ⟨zeros, he⟩ := digits_iff_zeros.mp ⟨hds, rfl⟩
      exact ⟨['+'], zeros, Or.inr rfl, congrArg (List.cons '+') he⟩
  · rintro ⟨sign, zeros, hsign, rfl⟩
    obtain ⟨hds, hvalue⟩ := digits_iff_zeros.mpr ⟨zeros, rfl⟩
    rcases hsign with rfl | rfl
    · have hw := WritesNat.plain hds
      rwa [hvalue] at hw
    · have hw := WritesNat.plus hds
      rwa [hvalue] at hw

end EdgeFleet.Text.Numeral
