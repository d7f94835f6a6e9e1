import EdgeFleet.Proofs.Decimal.Shortest
import EdgeFleet.Proofs.Json.Scan
import EdgeFleet.Proofs.Text.Numeral

namespace EdgeFleet.Json

open Text.Numeral (isDigit extend)
open Decimal (Double Scientific shortest)

namespace Reader

section Gather

variable {n : Nat} {ds : List Char}

theorem mul_pow_le_extend (n : Nat) (ds : List Char) : n * 10 ^ ds.length ≤ extend n ds := by
  induction ds generalizing n with
  | nil => simp [extend]
  | cons c ds ih =>
    calc n * 10 ^ (c :: ds).length = 10 * n * 10 ^ ds.length := by
          rw [List.length_cons, Nat.pow_succ]; ring
      _ ≤ (10 * n + Text.Numeral.digit c) * 10 ^ ds.length := by gcongr; omega
      _ ≤ extend n (c :: ds) := ih _

theorem extend_lt (hd : ∀ c ∈ ds, isDigit c = true) (n : Nat) :
    extend n ds < (n + 1) * 10 ^ ds.length := by
  induction ds generalizing n with
  | nil => simp [extend]
  | cons c ds ih =>
    have hlt := (Text.Numeral.digitChar_digit (hd c List.mem_cons_self)).1
    calc extend n (c :: ds) < (10 * n + Text.Numeral.digit c + 1) * 10 ^ ds.length :=
          ih (fun d h => hd d (List.mem_cons_of_mem c h)) _
      _ ≤ (10 * (n + 1)) * 10 ^ ds.length := by gcongr; omega
      _ = (n + 1) * 10 ^ (c :: ds).length := by
          rw [List.length_cons, Nat.pow_succ]; ring

/-- Digits that are left over are some of those at hand, and without them the value is a smaller one. -/
theorem gather_spec (hn : n ≤ 0xFFFFFFFFFFFFFFFF) (ds : List Char) :
    (gather n ds).1 ≤ 0xFFFFFFFFFFFFFFFF ∧ (gather n ds).2.length ≤ ds.length ∧
      (gather n ds).1 * 10 ^ (gather n ds).2.length ≤ extend n ds := by
  induction ds generalizing n with
  | nil => exact ⟨hn, le_refl _, by simp [gather, extend]⟩
  | cons c ds ih =>
    rw [gather]
    split
    · rename_i hnext
      obtain ⟨hlt, hlen, hle⟩ := ih hnext
      exact ⟨hlt, hlen.trans (Nat.le_succ _), hle⟩
    · exact ⟨hn, le_refl _, mul_pow_le_extend n (c :: ds)⟩

theorem gather_append {cs : List Char} (h : extend n cs ≤ 0xFFFFFFFFFFFFFFFF) (ds : List Char) :
    gather n (cs ++ ds) = gather (extend n cs) ds := by
  induction cs generalizing n with
  | nil => rfl
  | cons c cs ih =>
    have hnext := (le_extend (10 * n + Text.Numeral.digit c) cs).trans h
    rw [List.cons_append, gather, if_pos hnext]
    exact ih h

end Gather

/-- Whether the characters write a number that is read as a double. -/
def WritesReal (cs : List Char) : Prop :=
  ∃ t : NumberText, t.Grammatical ∧ t.chars = cs ∧ ∀ rest, ∃ x, t.value rest = .ok (.real x)

theorem WritesReal.number {cs rest : List Char} (h : WritesReal cs) (hr : Ends rest) :
    ∃ x, number (cs ++ rest) = .ok (.real x) rest := by
  obtain ⟨t, hgrammar, rfl, hvalue⟩ := h
  obtain ⟨x, hx⟩ := hvalue rest
  refine ⟨x, (bind_of_ok (numberText_chars hgrammar .endInValue hr)).trans ?_⟩
  simp only [hx]

theorem WritesReal.head {cs : List Char} (h : WritesReal cs) :
    ∃ c more, cs = c :: more ∧ (c = '-' ∨ isDigit c = true) := by
  obtain ⟨t, hgrammar, rfl, -⟩ := h
  obtain ⟨d, ds, hwhole⟩ := List.exists_cons_of_ne_nil hgrammar.whole_ne
  simp only [NumberText.chars, hwhole]
  cases t.negative with
  | true => exact ⟨'-', _, rfl, Or.inl rfl⟩
  | false =>
    refine ⟨d, _, rfl, Or.inr (hgrammar.whole d ?_)⟩
    rw [hwhole]
    exact List.mem_cons_self

/-- A number with a point and at most 16 digits before it is read as a double. -/
theorem writesReal_point (negative : Bool) {whole fraction : List Char}
    (hw : ∀ c ∈ whole, isDigit c = true) (hne : whole ≠ []) (hz : whole.head? = some '0' → whole = ['0'])
    (hlen : whole.length ≤ 16) (hf : ∀ c ∈ fraction, isDigit c = true) (hfne : fraction ≠ []) :
    WritesReal ((if negative then ['-'] else []) ++ whole ++ '.' :: fraction) := by
  refine ⟨⟨negative, whole, fraction, none⟩, ⟨hne, hw, hz, hf, by simp⟩, ?_, ?_⟩
  · simp [NumberText.chars, fractionChars, exponentChars, hfne]
  · intro rest
    -- the whole part fits 64 bits, so the digits of the fraction are the only ones to be scaled down
    have hsmall : extend 0 whole ≤ 0xFFFFFFFFFFFFFFFF := by
      have hlt := extend_lt hw 0
      have hpow : 10 ^ whole.length ≤ 10 ^ 16 := Nat.pow_le_pow_right (by decide) hlen
      omega
    obtain ⟨hword, -, -⟩ := gather_spec hsmall fraction
    let scale : Int := (0 : Nat) - (fraction.length - (gather (extend 0 whole) fraction).2.length : Nat)
    obtain ⟨x, hx⟩ := Option.isSome_iff_exists.mp
      (Double.isSome_ofDecimal?_of_nonpos hword (show scale ≤ 0 by omega))
    refine ⟨if negative then x.neg else x, ?_⟩
    simp only [NumberText.value, gather_of_le hsmall, hfne, false_and, if_false, List.length_nil]
    simp only [scale] at hx
    rw [hx]
    rfl

theorem exponentValue_of_le {n : Nat} {ds : List Char} (h : extend n ds ≤ 0x7FFFFFFF) :
    exponentValue n ds = .ok (extend n ds) := by
  induction ds generalizing n with
  | nil => rfl
  | cons c ds ih =>
    have hnext := (le_extend (10 * n + Text.Numeral.digit c) ds).trans h
    rw [exponentValue, if_pos hnext, ih h]
    rfl

/-- A number in scientific form is read as a double if its significand, as far as it is read, has one at the
exponent that is left. -/
theorem writesReal_scientific (negative : Bool) {d : Char} {fraction : List Char}
    (hd : ∀ c ∈ d :: fraction, isDigit c = true) (power : Int)
    (hread : 0 ≤ power → power ≤ 0x7FFFFFFF ∧ (Double.ofDecimal? (gather 0 (d :: fraction)).1
      (power - fraction.length + (gather 0 (d :: fraction)).2.length)).isSome = true) :
    WritesReal ((if negative then ['-'] else []) ++ d :: fractionChars fraction ++
      'e' :: (if power < 0 then '-' else '+') :: Nat.toDigits 10 power.natAbs) := by
  have hfirst : ∀ c ∈ [d], isDigit c = true := by simpa using hd d List.mem_cons_self
  have hfraction : ∀ c ∈ fraction, isDigit c = true := fun c hc => hd c (List.mem_cons_of_mem d hc)
  refine ⟨⟨negative, [d], fraction, some (decide (power < 0), Nat.toDigits 10 power.natAbs)⟩,
    ⟨by simp, hfirst, by simp, hfraction, ?_⟩, ?_, ?_⟩
  · rintro n ds he
    obtain ⟨rfl, rfl⟩ := Prod.mk.inj (Option.some.inj he)
    exact ⟨Nat.toDigits_ne_nil, fun c hc => Text.Numeral.isDigit_of_mem_toDigits hc⟩
  · simp [NumberText.chars, exponentChars]
  · intro rest
    have hsmall : extend 0 [d] ≤ 0xFFFFFFFFFFFFFFFF := by
      have hlt := extend_lt hfirst 0
      simp only [List.length_singleton] at hlt
      omega
    have hall := gather_append hsmall fraction
    obtain ⟨hword, hleft, -⟩ := gather_spec hsmall fraction
    rw [List.singleton_append] at hall
    rw [hall] at hread
    simp only [NumberText.value, gather_of_le hsmall, reduceCtorEq, and_false, false_and, if_false,
      List.length_nil]
    generalize gather (extend 0 [d]) fraction = read at *
    rcases lt_or_ge power 0 with hneg | hpos
    · simp only [hneg, decide_true, if_true]
      split
      · rename_i n _
        obtain ⟨x, hx⟩ := Option.isSome_iff_exists.mp (Double.isSome_ofDecimal?_of_nonpos hword
          (show ((0 : Nat) : Int) - (fraction.length - read.2.length : Nat) - n ≤ 0 by omega))
        rw [hx]
        exact ⟨_, rfl⟩
      · simp only [Bool.not_true, Bool.false_eq_true, and_false, if_false]
        exact ⟨_, rfl⟩
    · obtain ⟨hmax, hsome⟩ := hread hpos
      have hvalue : extend 0 (Nat.toDigits 10 power.natAbs) = power.natAbs :=
        Text.Numeral.value_toDigits _
      have hcount : extend 0 (Nat.toDigits 10 power.natAbs) ≤ 0x7FFFFFFF := by omega
      have hscale : ((0 : Nat) : Int) - (fraction.length - read.2.length : Nat) + power.natAbs =
          power - fraction.length + read.2.length := by omega
      obtain ⟨x, hx⟩ := Option.isSome_iff_exists.mp hsome
      rw [exponentValue_of_le hcount, hvalue]
      simp only [not_lt.mpr hpos, decide_false, Bool.false_eq_true, if_false, hscale, hx]
      exact ⟨_, rfl⟩

end Reader

open Reader

section Decimals

theorem isDigit_of_mem_zeros {n : Nat} {c : Char} (h : c ∈ List.replicate n '0') :
    isDigit c = true := by
  rw [List.eq_of_mem_replicate h]
  rfl

theorem writesReal_plain (negative : Bool) {ds : List Char} (hd : ∀ c ∈ ds, isDigit c = true)
    (hne : ds ≠ []) (hhead : ds.head? ≠ some '0') {exponent : Int}
    (hpoint : -5 < (ds.length : Int) + exponent ∧ ds.length + exponent ≤ 16) :
    WritesReal ((if negative then ['-'] else []) ++ decimalChars ds exponent) := by
  by_cases hexp : 0 ≤ exponent
  · have hwhole : ∀ c ∈ ds ++ List.replicate exponent.toNat '0', isDigit c = true := by
      rw [List.forall_mem_append]
      exact ⟨hd, fun c hc => isDigit_of_mem_zeros hc⟩
    have hlen : (ds ++ List.replicate exponent.toNat '0').length ≤ 16 := by
      rw [List.length_append, List.length_replicate]
      omega
    have hfirst : (ds ++ List.replicate exponent.toNat '0').head? ≠ some '0' := by
      rwa [List.head?_append_of_ne_nil _ hne]
    have hform := writesReal_point negative hwhole (by simp [hne]) (fun h => absurd h hfirst) hlen
      (fun c hc => isDigit_of_mem_zeros (n := 1) hc) (by simp)
    simp only [decimalChars, hpoint, hexp, and_self, if_true]
    simpa using hform
  · by_cases hpos : 0 < (ds.length : Int) + exponent
    · let k := ((ds.length : Int) + exponent).toNat
      have hk : 0 < k ∧ k < ds.length := by omega
      have hfirst : (ds.take k).head? ≠ some '0' := by
        rwa [List.head?_take, if_neg hk.1.ne']
      have hlen : (ds.take k).length ≤ 16 := by
        rw [List.length_take]
        omega
      have hfraction : ∀ c ∈ ds.drop k, isDigit c = true := fun c hc => hd c (List.mem_of_mem_drop hc)
      have hform := writesReal_point negative (fun c hc => hd c (List.mem_of_mem_take hc))
        (by simp [hne, hk.1.ne']) (fun h => absurd h hfirst) hlen hfraction (by simp [hk.2])
      simp only [decimalChars, hpoint, hexp, hpos, and_self, if_true, if_false]
      simpa using hform
    · have hfraction : ∀ c ∈ List.replicate (-((ds.length : Int) + exponent)).toNat '0' ++ ds,
          isDigit c = true := by
        rw [List.forall_mem_append]
        exact ⟨fun c hc => isDigit_of_mem_zeros hc, hd⟩
      have hform := writesReal_point negative
        (fun c hc => isDigit_of_mem_zeros (n := 1) hc) (by simp) (fun _ => rfl) (by simp) hfraction
        (by simp [hne])
      simp only [decimalChars, hpoint, hexp, hpos, and_self, if_true, if_false]
      simpa using hform

theorem toDigits_cons {n : Nat} (hn : 0 < n) :
    ∃ d ds, Nat.toDigits 10 n = d :: ds ∧ d ≠ '0' ∧ 10 ^ ds.length ≤ n := by
  obtain ⟨d, ds, he⟩ := List.exists_cons_of_ne_nil (Nat.toDigits_ne_nil (b := 10) (n := n))
  refine ⟨d, ds, he, ?_, ?_⟩
  · rintro rfl
    have hhead := Text.Numeral.head?_toDigits hn
    rw [he] at hhead
    exact hhead rfl
  · cases ds with
    | nil => exact hn
    | cons e es =>
      by_contra hlt
      have hlen := (Nat.length_toDigits_le_iff (by decide) (Nat.succ_pos _)).mpr (not_le.mp hlt)
      rw [he] at hlen
      exact Nat.not_succ_le_self _ hlen

theorem power_lt {n k : Nat} (hn : 10 ^ k ≤ n) {e : Int} (h : (n : ℚ) * 10 ^ e < 10 ^ 309) :
    (k : Int) + e < 309 := by
  have hpow : (10 : ℚ) ^ ((k : Int) + e) < 10 ^ (309 : Int) := by
    calc (10 : ℚ) ^ ((k : Int) + e) = 10 ^ k * 10 ^ e := by
          rw [zpow_add₀ (by norm_num), zpow_natCast]
      _ ≤ n * 10 ^ e := by
          gcongr
          exact_mod_cast hn
      _ < 10 ^ (309 : Int) := h
  exact (zpow_lt_zpow_iff_right₀ (by norm_num)).mp hpow

theorem decimalChars_scientific {d : Char} {ds : List Char} {exponent : Int}
    (h : ¬ (-5 < ((d :: ds).length : Int) + exponent ∧ (d :: ds).length + exponent ≤ 16)) :
    decimalChars (d :: ds) exponent = d :: fractionChars ds ++
      'e' :: (if (ds.length : Int) + exponent < 0 then '-' else '+') ::
        Nat.toDigits 10 ((ds.length : Int) + exponent).natAbs := by
  have hpower : ((d :: ds).length : Int) + exponent - 1 = ds.length + exponent := by
    rw [List.length_cons]
    omega
  simp only [decimalChars, h, if_false, hpower]
  cases ds with
  | nil => rfl
  | cons e es => rfl

/-- A decimal is read as a double if it has one, however many of its digits are read. -/
theorem writesReal_decimalChars (negative : Bool) {s : Scientific} (hs : 1 ≤ s.digits)
    (hmax : s.value < 10 ^ 309)
    (hread : ∀ m dropped : Nat, m * 10 ^ dropped ≤ s.digits →
      (s.digits ≤ 0xFFFFFFFFFFFFFFFF → m = s.digits ∧ dropped = 0) →
        (Double.ofDecimal? m (s.exponent + dropped)).isSome = true) :
    WritesReal ((if negative then ['-'] else []) ++
      decimalChars (Nat.toDigits 10 s.digits) s.exponent) := by
  have hdigits : ∀ c ∈ Nat.toDigits 10 s.digits, isDigit c = true :=
    fun c hc => Text.Numeral.isDigit_of_mem_toDigits hc
  have hvalue : extend 0 (Nat.toDigits 10 s.digits) = s.digits := Text.Numeral.value_toDigits _
  obtain ⟨d, ds, he, hd, hpow⟩ := toDigits_cons hs
  rw [he] at hdigits hvalue ⊢
  by_cases hpoint : -5 < ((d :: ds).length : Int) + s.exponent ∧ (d :: ds).length + s.exponent ≤ 16
  · have hhead : (d :: ds).head? ≠ some '0' := fun h => hd (Option.some.inj h)
    exact writesReal_plain negative hdigits (List.cons_ne_nil d ds) hhead hpoint
  · rw [decimalChars_scientific hpoint, ← List.append_assoc]
    apply writesReal_scientific negative hdigits
    intro _
    have hlt := power_lt hpow hmax
    obtain ⟨-, -, hle⟩ := gather_spec (Nat.zero_le _) (d :: ds)
    rw [hvalue] at hle
    have hsome := hread _ _ hle fun hword => by
      rw [gather_of_le (by rwa [hvalue]), hvalue]
      exact ⟨rfl, rfl⟩
    refine ⟨by omega, ?_⟩
    rwa [add_sub_cancel_left]

/-- A finite double is printed as a number that is read as a double. -/
theorem writesReal_realChars {x : Double} (hf : x.Finite) : WritesReal (realChars x) := by
  cases hz : x.isZero with
  | true =>
    have hzero : ∀ c ∈ ['0'], isDigit c = true := fun c hc => isDigit_of_mem_zeros (n := 1) hc
    have hform := writesReal_point x.isNegative hzero (by simp) (fun _ => rfl) (by simp) hzero (by simp)
    simp only [realChars, hz, if_true]
    simpa using hform
  | false =>
    have hmax := (Double.shortest_le_overflow hf hz).trans_lt Double.overflow_lt_ten_pow
    simp only [realChars, hz, Bool.false_eq_true, if_false]
    apply writesReal_decimalChars x.isNegative (Double.shortest_spec hf hz).1 hmax
    intro m dropped hle hall
    exact Double.isSome_ofDecimal?_shortest hf hz hle hall

end Decimals

end EdgeFleet.Json
