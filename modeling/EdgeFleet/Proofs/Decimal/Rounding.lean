import EdgeFleet.Decimal.Double
import Mathlib.Algebra.Order.Field.Power
import Mathlib.Data.Rat.Cast.Order
import Mathlib.Tactic.FieldSimp
import Mathlib.Tactic.Linarith
import Mathlib.Tactic.NormNum
import Mathlib.Tactic.Positivity
import Mathlib.Tactic.Ring

/-! Rounding to binary64. What lies below the middle between the greatest double and the next power of two
has a double, and that is greater by one part in `2 ^ 53` at most. -/
namespace EdgeFleet.Decimal.Double

def magnitude (x : Double) : ℚ := x.scaled.1 * (2 : ℚ) ^ x.scaled.2

/-- Whether the number is no infinity and does not stand for none. -/
def Finite (x : Double) : Prop := x.magnitudeBits < 0x7FF * exponentPlace

instance (x : Double) : Decidable x.Finite := inferInstanceAs (Decidable (_ < _))

/-- The middle between the greatest double and the next power of two. -/
def overflow : ℚ := (2 ^ 54 - 1) * 2 ^ 970

/-- A bound for decimals that stay below the middle although their significand, their power of ten and
the product of both are rounded one after the other. -/
def safeLimit : ℚ := (2 ^ 54 - 9) * 2 ^ 970

theorem two_zpow_top : (2 : ℚ) ^ (971 : Int) = 2 * 2 ^ 970 := by
  rw [← pow_succ']
  rfl

section Ratio

variable {num den : Nat} (hden : 0 < den)

include hden

theorem shiftRatio_pos (num : Nat) (q : Int) : 0 < (shiftRatio num den q).2 := by
  unfold shiftRatio
  split
  · exact Nat.mul_pos hden (Nat.pow_pos (by decide))
  · exact hden

theorem shiftRatio_div (num : Nat) (q : Int) :
    ((shiftRatio num den q).1 : ℚ) / (shiftRatio num den q).2 = num / den / 2 ^ q := by
  have hd : (den : ℚ) ≠ 0 := Nat.cast_ne_zero.mpr hden.ne'
  unfold shiftRatio
  split
  · rename_i hq
    have hpow : (2 : ℚ) ^ q = 2 ^ q.toNat := by
      rw [← zpow_natCast, Int.toNat_of_nonneg hq]
    simp only [Nat.pow_eq, Nat.cast_mul, Nat.cast_pow, Nat.cast_ofNat]
    rw [hpow, div_div]
  · rename_i hq
    have hpow : (2 : ℚ) ^ q = (2 ^ (-q).toNat)⁻¹ := by
      rw [← zpow_natCast, Int.toNat_of_nonneg (by omega), ← zpow_neg, neg_neg]
    simp only [Nat.pow_eq, Nat.cast_mul, Nat.cast_pow, Nat.cast_ofNat]
    rw [hpow, div_inv_eq_mul, mul_div_right_comm]

theorem roundDiv_le : (roundDiv num den : ℚ) ≤ num / den + 1 / 2 := by
  have hd : (0 : ℚ) < den := Nat.cast_pos.mpr hden
  have hsplit := Nat.div_add_mod num den
  have htwice : 2 * den * roundDiv num den ≤ 2 * num + den := by
    simp only [roundDiv]
    split
    · rename_i hup
      have hmid : den ≤ 2 * (num % den) := by
        simp only [Bool.or_eq_true, decide_eq_true_eq, Bool.and_eq_true, beq_iff_eq] at hup
        omega
      calc 2 * den * (num / den + 1) = 2 * (den * (num / den)) + 2 * den := by ring
        _ ≤ 2 * num + den := by omega
    · calc 2 * den * (num / den) = 2 * (den * (num / den)) := by ring
        _ ≤ 2 * num + den := by omega
  have hcast : (2 * den * roundDiv num den : ℚ) ≤ 2 * num + den := by exact_mod_cast htwice
  rw [div_add_div _ _ hd.ne' (by norm_num), le_div_iff₀ (by positivity)]
  linarith

theorem le_roundDiv {n : Nat} (h : (n : ℚ) ≤ num / den) : n ≤ roundDiv num den := by
  have hle : n ≤ num / den := by
    rw [le_div_iff₀ (Nat.cast_pos.mpr hden)] at h
    exact (Nat.le_div_iff_mul_le hden).mpr (by exact_mod_cast h)
  have hround : num / den ≤ roundDiv num den := by
    simp only [roundDiv]
    split <;> omega
  exact hle.trans hround

theorem div_lt_iff_cast {n : Nat} : num / den < n ↔ (num : ℚ) / den < n := by
  rw [Nat.div_lt_iff_lt_mul hden, div_lt_iff₀ (Nat.cast_pos.mpr hden)]
  exact_mod_cast Iff.rfl

end Ratio

section Exponent

variable {num den : Nat} (hnum : 0 < num) (hden : 0 < den)

include hnum hden

theorem log2_bounds :
    (2 : ℚ) ^ ((Nat.log2 num : Int) - Nat.log2 den - 1) ≤ num / den ∧
      (num : ℚ) / den < 2 ^ ((Nat.log2 num : Int) - Nat.log2 den + 1) := by
  have hd : (0 : ℚ) < den := Nat.cast_pos.mpr hden
  have hnumLow : (2 : ℚ) ^ Nat.log2 num ≤ num := by exact_mod_cast Nat.log2_self_le hnum.ne'
  have hnumHigh : (num : ℚ) < 2 ^ (Nat.log2 num + 1) := by exact_mod_cast Nat.lt_log2_self
  have hdenLow : (2 : ℚ) ^ Nat.log2 den ≤ den := by exact_mod_cast Nat.log2_self_le hden.ne'
  have hdenHigh : (den : ℚ) < 2 ^ (Nat.log2 den + 1) := by exact_mod_cast Nat.lt_log2_self
  constructor
  · calc (2 : ℚ) ^ ((Nat.log2 num : Int) - Nat.log2 den - 1)
        = 2 ^ Nat.log2 num / 2 ^ (Nat.log2 den + 1) := by
          rw [sub_sub, zpow_sub₀ two_ne_zero]
          norm_cast
      _ ≤ num / den := by gcongr
  · calc (num : ℚ) / den < 2 ^ (Nat.log2 num + 1) / den := by gcongr
      _ ≤ 2 ^ (Nat.log2 num + 1) / 2 ^ Nat.log2 den := by gcongr
      _ = 2 ^ ((Nat.log2 num : Int) - Nat.log2 den + 1) := by
          rw [sub_add_eq_add_sub, zpow_sub₀ two_ne_zero]
          norm_cast

/-- Without regard to the smallest exponent, a ratio has 53 bits before its point at its exponent. -/
theorem exists_exact_exponent :
    ∃ exact : Int, ratioExponent num den = max exact (-1074) ∧
      (2 : ℚ) ^ (exact + 52) ≤ num / den ∧ (num : ℚ) / den < 2 ^ (exact + 53) := by
  obtain ⟨hlow, hhigh⟩ := log2_bounds hnum hden
  let guess : Int := (Nat.log2 num : Int) - Nat.log2 den - 52
  have hquot : (shiftRatio num den guess).1 / (shiftRatio num den guess).2 < exponentPlace ↔
      (num : ℚ) / den < 2 ^ (guess + 52) := by
    rw [div_lt_iff_cast (shiftRatio_pos hden num guess), shiftRatio_div hden,
      div_lt_iff₀ (by positivity), zpow_add₀ two_ne_zero, mul_comm]
    norm_num [exponentPlace]
  -- the quotient decides between the two exponents that the logarithms leave open
  by_cases hlt : (num : ℚ) / den < 2 ^ (guess + 52)
  · refine ⟨guess - 1, ?_, ?_, ?_⟩
    · simp only [ratioExponent]
      rw [if_pos (hquot.mpr hlt)]
    · convert hlow using 2
      omega
    · convert hlt using 2
      omega
  · refine ⟨guess, ?_, not_lt.mp hlt, ?_⟩
    · simp only [ratioExponent]
      rw [if_neg (mt hquot.mp hlt)]
    · convert hhigh using 2
      omega

/-- At its exponent a ratio has at most 53 bits before its point, and no fewer unless it is too small. -/
theorem ratioExponent_spec :
    -1074 ≤ ratioExponent num den ∧ (num : ℚ) / den < 2 ^ (ratioExponent num den + 53) ∧
      (ratioExponent num den = -1074 ∨ (2 : ℚ) ^ (ratioExponent num den + 52) ≤ num / den) := by
  obtain ⟨exact, he, hlow, hhigh⟩ := exists_exact_exponent hnum hden
  rw [he]
  rcases le_total exact (-1074) with hsmall | hlarge
  · rw [max_eq_right hsmall]
    refine ⟨le_refl _, hhigh.trans_le ?_, Or.inl rfl⟩
    exact zpow_le_zpow_right₀ one_le_two (by omega)
  · rw [max_eq_left hlarge]
    exact ⟨hlarge, hhigh, Or.inr hlow⟩

end Exponent

section Rounded

/-- The significand of the double of a ratio, before it is carried. -/
def significand (num den : Nat) : Nat :=
  let shifted := shiftRatio num den (ratioExponent num den)
  roundDiv shifted.1 shifted.2

theorem ofRatio?_of_pos {num : Nat} (hnum : 0 < num) (den : Nat) :
    ofRatio? num den =
      let bits := (ratioExponent num den + 1074).toNat * exponentPlace + significand num den
      if bits < 0x7FF * exponentPlace then some ⟨bits.toUInt64⟩ else none := by
  rw [ofRatio?, if_neg hnum.ne']
  rfl

variable {num den : Nat}

theorem significand_le (num : Nat) (hden : 0 < den) :
    (significand num den : ℚ) ≤ num / den / 2 ^ ratioExponent num den + 1 / 2 := by
  rw [← shiftRatio_div hden]
  exact roundDiv_le (shiftRatio_pos hden num _)

variable (hnum : 0 < num) (hden : 0 < den)

include hnum hden

/-- The significand fits 53 bits or is carried, and has all of them unless the ratio is too small. -/
theorem significand_bounds :
    significand num den ≤ 2 ^ 53 ∧
      (ratioExponent num den = -1074 ∨ exponentPlace ≤ significand num den) := by
  obtain ⟨-, hhigh, hlow⟩ := ratioExponent_spec hnum hden
  constructor
  · have hle := significand_le num hden
    have hlt : (num : ℚ) / den / 2 ^ ratioExponent num den < 2 ^ 53 := by
      rw [div_lt_iff₀ (by positivity)]
      rw [zpow_add₀ two_ne_zero, mul_comm] at hhigh
      exact_mod_cast hhigh
    have hcast : (significand num den : ℚ) < (2 ^ 53 + 1 : Nat) := by
      push_cast
      linarith
    exact Nat.le_of_lt_succ (by exact_mod_cast hcast)
  · refine hlow.imp_right fun hlow => ?_
    have hshifted : (exponentPlace : ℚ) ≤ (shiftRatio num den (ratioExponent num den)).1 /
        (shiftRatio num den (ratioExponent num den)).2 := by
      rw [shiftRatio_div hden, le_div_iff₀ (by positivity)]
      rw [zpow_add₀ two_ne_zero, mul_comm] at hlow
      exact_mod_cast hlow
    exact le_roundDiv (shiftRatio_pos hden num _) hshifted

end Rounded

/-- A ratio below the middle between the greatest double and the next power of two has a double. -/
theorem isSome_ofRatio? {num den : Nat} (hden : 0 < den)
    (hlt : (num : ℚ) / den < overflow) : (ofRatio? num den).isSome = true := by
  rcases Nat.eq_zero_or_pos num with rfl | hnum
  · rfl
  obtain ⟨hmin, hhigh, hlow⟩ := ratioExponent_spec hnum hden
  obtain ⟨hcarry, -⟩ := significand_bounds hnum hden
  have hle := significand_le num hden
  -- the ratio is below `2 ^ 1024`, so its first bit is no higher than that of the greatest double
  have hmax : ratioExponent num den < 972 := by
    rcases hlow with hlow | hlow
    · omega
    · have hpow : (2 : ℚ) ^ (ratioExponent num den + 52) < 2 ^ ((54 : Int) + 970) := by
        calc (2 : ℚ) ^ (ratioExponent num den + 52) ≤ num / den := hlow
          _ < (2 ^ 54 - 1) * 2 ^ 970 := hlt
          _ ≤ 2 ^ 54 * 2 ^ 970 := by gcongr; norm_num
          _ = 2 ^ ((54 : Int) + 970) := by rw [zpow_add₀ two_ne_zero]; rfl
      have hexp := (zpow_lt_zpow_iff_right₀ one_lt_two).mp hpow
      omega
  rw [ofRatio?_of_pos hnum]
  refine (congrArg Option.isSome (if_pos ?_)).trans rfl
  simp only [exponentPlace] at *
  by_cases htop : ratioExponent num den = 971
  · rw [htop] at hle ⊢
    have hsig : (significand num den : ℚ) < (2 ^ 53 : Nat) := by
      calc (significand num den : ℚ) ≤ num / den / 2 ^ (971 : Int) + 1 / 2 := hle
        _ < (2 ^ 54 - 1) * 2 ^ 970 / 2 ^ (971 : Int) + 1 / 2 := by gcongr; exact hlt
        _ = (2 ^ 53 : Nat) := by
          rw [two_zpow_top, mul_div_mul_right _ _ (by positivity)]
          norm_num
    have hsig' : significand num den < 2 ^ 53 := by exact_mod_cast hsig
    omega
  · omega

theorem magnitudeBits_of_lt {bits : Nat} (h : bits < 0x7FF * exponentPlace) :
    magnitudeBits ⟨bits.toUInt64⟩ = bits := by
  have hbig : bits < signPlace := h.trans (by decide)
  have hnat : bits.toUInt64.toNat = bits := UInt64.toNat_ofNat_of_lt' (hbig.trans (by decide))
  rw [magnitudeBits, hnat, Nat.mod_eq_of_lt hbig]

theorem scaled_of_bits {x : Double} {e f : Nat} (h : x.magnitudeBits = e * exponentPlace + f)
    (hf : f < exponentPlace) :
    x.scaled = if e = 0 then (f, -1074) else (exponentPlace + f, (e : Int) - 1075) := by
  have hplace : 0 < exponentPlace := by decide
  have hdiv : x.magnitudeBits / exponentPlace = e := by
    rw [h, Nat.add_comm, Nat.add_mul_div_right _ _ hplace, Nat.div_eq_of_lt hf, Nat.zero_add]
  have hmod : x.magnitudeBits % exponentPlace = f := by
    rw [h, Nat.add_comm, Nat.add_mul_mod_self_right, Nat.mod_eq_of_lt hf]
  simp only [scaled, hdiv, hmod]

theorem magnitude_of_parts {x : Double} {k m : Nat} (h : x.magnitudeBits = k * exponentPlace + m)
    (hm : m ≤ 2 ^ 53) (hk : k = 0 ∨ exponentPlace ≤ m) :
    x.magnitude = m * 2 ^ ((k : Int) - 1074) := by
  rcases lt_or_ge m exponentPlace with hsmall | hlarge
  · obtain rfl : k = 0 := by omega
    rw [magnitude, scaled_of_bits h hsmall]
    simp
  · rcases hm.lt_or_eq with hlt | rfl
    · have hbits : x.magnitudeBits = (k + 1) * exponentPlace + (m - exponentPlace) := by
        rw [h, Nat.succ_mul]
        omega
      have hrest : m - exponentPlace < exponentPlace := by
        simp only [exponentPlace] at *
        omega
      have hexp : ((k + 1 : Nat) : Int) - 1075 = k - 1074 := by omega
      rw [magnitude, scaled_of_bits hbits hrest, if_neg (Nat.succ_ne_zero k), hexp,
        Nat.add_sub_of_le hlarge]
    · have hbits : x.magnitudeBits = (k + 2) * exponentPlace + 0 := by
        rw [h]
        simp only [exponentPlace]
        omega
      rw [magnitude, scaled_of_bits hbits (by decide), if_neg (by omega)]
      have hpow : (2 : ℚ) ^ ((k + 2 : Nat) - 1075 : Int) = 2 * 2 ^ ((k : Int) - 1074) := by
        rw [← zpow_one_add₀ two_ne_zero]
        congr 1
        push_cast
        omega
      rw [hpow]
      simp only [exponentPlace]
      push_cast
      ring

section Magnitude

variable {num den : Nat} {x : Double}

theorem magnitude_ofRatio? (hnum : 0 < num) (hden : 0 < den) (h : ofRatio? num den = some x) :
    x.magnitude = significand num den * 2 ^ ratioExponent num den := by
  obtain ⟨hmin, -, -⟩ := ratioExponent_spec hnum hden
  obtain ⟨hcarry, hfull⟩ := significand_bounds hnum hden
  rw [ofRatio?_of_pos hnum] at h
  obtain ⟨hlt, hx⟩ := Option.ite_none_right_eq_some.mp h
  obtain rfl := Option.some.inj hx
  have hexp : (((ratioExponent num den + 1074).toNat : Nat) : Int) - 1074 = ratioExponent num den := by
    omega
  have hbits := magnitude_of_parts (magnitudeBits_of_lt hlt) hcarry
    (hfull.imp_left fun h => by rw [h]; rfl)
  rw [hbits, hexp]

/-- A double exceeds the ratio that it is for by one part in `2 ^ 53` at most. -/
theorem magnitude_le_of_ofRatio? (hden : 0 < den) (hone : 1 ≤ (num : ℚ) / den)
    (h : ofRatio? num den = some x) : x.magnitude ≤ num / den * (1 + 1 / 2 ^ 53) := by
  have hnum : 0 < num := by
    apply Nat.pos_of_ne_zero
    rintro rfl
    norm_num at hone
  obtain ⟨hmin, hhigh, hlow⟩ := ratioExponent_spec hnum hden
  have hle := significand_le num hden
  have hpos : (0 : ℚ) < 2 ^ ratioExponent num den := by positivity
  have hunit : (2 : ℚ) ^ ratioExponent num den ≤ num / den / 2 ^ 52 := by
    rw [le_div_iff₀ (by positivity)]
    rcases hlow with hlow | hlow
    · rw [hlow]
      calc (2 : ℚ) ^ (-1074 : Int) * 2 ^ 52 = 2 ^ ((-1074 : Int) + 52) := by
            rw [zpow_add₀ two_ne_zero]; rfl
        _ ≤ 2 ^ (0 : Int) := zpow_le_zpow_right₀ one_le_two (by omega)
        _ ≤ num / den := hone
    · rw [zpow_add₀ two_ne_zero] at hlow
      exact hlow
  rw [magnitude_ofRatio? hnum hden h]
  calc (significand num den : ℚ) * 2 ^ ratioExponent num den
      ≤ (num / den / 2 ^ ratioExponent num den + 1 / 2) * 2 ^ ratioExponent num den := by gcongr
    _ = num / den + 2 ^ ratioExponent num den / 2 := by
      field_simp
    _ ≤ num / den + num / den / 2 ^ 52 / 2 := by gcongr
    _ = num / den * (1 + 1 / 2 ^ 53) := by ring

end Magnitude

section Decimals

theorem mul?_eq (x y : Double) :
    x.mul? y =
      let product := shiftRatio (x.scaled.1 * y.scaled.1) 1 (-(x.scaled.2 + y.scaled.2))
      ofRatio? product.1 product.2 := rfl

theorem isSome_mul? {x y : Double} (h : x.magnitude * y.magnitude < overflow) :
    (x.mul? y).isSome = true := by
  rw [mul?_eq]
  apply isSome_ofRatio? (shiftRatio_pos Nat.one_pos _ _)
  have hproduct : ((x.scaled.1 * y.scaled.1 : Nat) : ℚ) / (1 : Nat) /
      2 ^ (-(x.scaled.2 + y.scaled.2)) = x.magnitude * y.magnitude := by
    rw [zpow_neg, div_inv_eq_mul, zpow_add₀ two_ne_zero, magnitude, magnitude]
    push_cast
    ring
  rwa [shiftRatio_div Nat.one_pos, hproduct]

theorem magnitude_nonneg (x : Double) : 0 ≤ x.magnitude := by
  unfold magnitude
  positivity

theorem magnitude_ofNat_zero : (ofNat 0).magnitude = 0 := by
  have hscaled : (ofNat 0).scaled = (0, -1074) := rfl
  rw [magnitude, hscaled, Nat.cast_zero, zero_mul]

theorem magnitude_ofNat_le {n : Nat} (h : (n : ℚ) < overflow) :
    (ofNat n).magnitude ≤ n * (1 + 1 / 2 ^ 53) := by
  rcases Nat.eq_zero_or_pos n with rfl | hn
  · rw [magnitude_ofNat_zero, Nat.cast_zero, zero_mul]
  · have hone : (n : ℚ) / (1 : Nat) = n := by rw [Nat.cast_one, div_one]
    obtain ⟨x, hx⟩ := Option.isSome_iff_exists.mp (isSome_ofRatio? Nat.one_pos (by rwa [hone]))
    have hle := magnitude_le_of_ofRatio? Nat.one_pos (by rw [hone]; exact_mod_cast hn) hx
    rw [hone] at hle
    rw [ofNat, hx]
    exact hle

theorem powerOfTen_eq (k : Nat) : powerOfTen k = ofNat (10 ^ k) := rfl

theorem safeLimit_lt_overflow : safeLimit < overflow := by
  unfold safeLimit overflow
  gcongr
  norm_num

theorem overflow_lt_ten_pow : overflow < 10 ^ 309 := by
  calc overflow < (2 ^ 54 * 2 ^ 970 : ℚ) := by
        unfold overflow
        gcongr
        norm_num
    _ = 2 * (2 ^ 93) ^ 11 := by rw [← pow_mul, ← pow_add, ← pow_succ']
    _ ≤ 10 * (10 ^ 28) ^ 11 := by
        gcongr
        · norm_num
        · norm_num
    _ = 10 ^ 309 := by rw [← pow_mul, ← pow_succ']

/-- The three roundings keep a decimal below the middle. -/
theorem isSome_mul?_powerOfTen {s k : Nat} (hs : (s : ℚ) ≤ safeLimit)
    (hk : (10 : ℚ) ^ k ≤ safeLimit) (h : (s : ℚ) * 10 ^ k ≤ safeLimit) :
    ((ofNat s).mul? (powerOfTen k)).isSome = true := by
  have hx := magnitude_ofNat_le (hs.trans_lt safeLimit_lt_overflow)
  have hy : (powerOfTen k).magnitude ≤ 10 ^ k * (1 + 1 / 2 ^ 53) := by
    have hcast : ((10 ^ k : Nat) : ℚ) = 10 ^ k := by rw [Nat.cast_pow, Nat.cast_ofNat]
    rw [powerOfTen_eq, ← hcast]
    apply magnitude_ofNat_le
    rw [hcast]
    exact hk.trans_lt safeLimit_lt_overflow
  apply isSome_mul?
  calc (ofNat s).magnitude * (powerOfTen k).magnitude
      ≤ s * (1 + 1 / 2 ^ 53) * (10 ^ k * (1 + 1 / 2 ^ 53)) := by
        apply mul_le_mul hx hy (magnitude_nonneg _)
        positivity
    _ = s * 10 ^ k * (1 + 1 / 2 ^ 53) ^ 2 := by ring
    _ ≤ safeLimit * (1 + 1 / 2 ^ 53) ^ 2 := by gcongr
    _ = (2 ^ 54 - 9) * (1 + 1 / 2 ^ 53) ^ 2 * 2 ^ 970 := by rw [safeLimit, mul_right_comm]
    _ < overflow := by
        unfold overflow
        gcongr
        norm_num

theorem isSome_ofDecimal? {s : Nat} {e : Int}
    (hle : 0 ≤ e → (s : ℚ) * 10 ^ e.toNat ≤ safeLimit) : (ofDecimal? s e).isSome = true := by
  by_cases he : 0 ≤ e
  case neg =>
    rw [ofDecimal?, if_neg he]
    rfl
  rcases Nat.eq_zero_or_pos s with rfl | hpos
  · rw [ofDecimal?, if_pos he]
    split
    · apply isSome_mul?
      rw [magnitude_ofNat_zero, zero_mul, overflow]
      positivity
    · rfl
  · have hone : (1 : ℚ) ≤ s := by exact_mod_cast hpos
    have hten : (1 : ℚ) ≤ 10 ^ e.toNat := one_le_pow₀ (by norm_num)
    have hs : (s : ℚ) ≤ safeLimit := (le_mul_of_one_le_right (by positivity) hten).trans (hle he)
    have hk : (10 : ℚ) ^ e.toNat ≤ safeLimit :=
      (le_mul_of_one_le_left (by positivity) hone).trans (hle he)
    have hsmall : e ≤ 308 := by
      by_contra hlarge
      have hgreat : (10 : ℚ) ^ 309 ≤ 10 ^ e.toNat := pow_le_pow_right₀ (by norm_num) (by omega)
      have hsafe := safeLimit_lt_overflow.trans overflow_lt_ten_pow
      exact (hsafe.trans_le (hgreat.trans hk)).false
    rw [ofDecimal?, if_pos he, if_pos hsmall]
    exact isSome_mul?_powerOfTen hs hk (hle he)

theorem isSome_ofDecimal?_of_nonpos {s : Nat} (hs : s ≤ 0xFFFFFFFFFFFFFFFF) {e : Int} (he : e ≤ 0) :
    (ofDecimal? s e).isSome = true := by
  apply isSome_ofDecimal?
  intro h0
  obtain rfl : e = 0 := le_antisymm he h0
  have hcast : (s : ℚ) ≤ 2 ^ 64 := by
    calc (s : ℚ) ≤ (0xFFFFFFFFFFFFFFFF : Nat) := by exact_mod_cast hs
      _ ≤ 2 ^ 64 := by norm_num
  calc (s : ℚ) * 10 ^ (0 : Int).toNat = s := by simp
    _ ≤ 1 * 2 ^ 970 := by
        rw [one_mul]
        exact hcast.trans (pow_le_pow_right₀ one_le_two (by decide))
    _ ≤ safeLimit := by
        unfold safeLimit
        gcongr
        norm_num

end Decimals

end EdgeFleet.Decimal.Double
